import CssGuard.Media
import CssGuard.Proofs.Selector.Structure
import Mathlib.Data.List.TakeWhile

/-!
# Sanitized media queries are read back

A media query that was let through is written from its words, with spaces where they are
needed, and it is read back as these words.

- `Spells`: a text is read back as tokens of a header, which are the given words
- `mediaValue?_cases`, `mediaFeature?_cases`, `mediaBody?_cases`,
  `mediaQuery?_cases`: what is let through
- `exists_spells_query`: a query that was let through is read back
- `mediaQuery?_withoutNewlines`: a query is let through without its newlines, too
- `IsQuery`: a query and its tokens, from which it is written again
- `exists_queries`, `reads_queries`: a list of queries that was let through
-/

namespace CssGuard

open Text
open scoped Text.ByCharacter

/-- A token that can stand in a media query. -/
def isQueryToken (t : Token) : Bool :=
  !t.isStructural && t ≠ Token.comma && !t.beginsUrl

/-- A text without its newlines. -/
def withoutNewlines (t : Text) : Text :=
  t.filter (· ≠ '\n')

theorem withoutNewlines_append (t u : Text) :
    withoutNewlines (t ++ u) = withoutNewlines t ++ withoutNewlines u :=
  List.filter_append ..

theorem withoutNewlines_of_not_mem {t : Text} (h : '\n' ∉ t) : withoutNewlines t = t :=
  List.filter_eq_self.mpr fun _ hc => decide_eq_true fun heq => h (heq ▸ hc)

theorem IsMaybeLine.withoutNewlines_eq {t q : Text} (h : IsMaybeLine t q)
    (hnew : '\n' ∉ t) : withoutNewlines q = t := by
  rcases h with rfl | rfl
  · exact withoutNewlines_of_not_mem hnew
  · rw [withoutNewlines_append, withoutNewlines_of_not_mem hnew]
    exact List.append_nil t

/-- The text is read back as tokens of a query. Without spaces they are the given
words without their newlines. -/
structure Spells (follow : Char → Bool) (text : Text) (ts : List Token)
    (words : List Text) : Prop where
  reads : Reads follow text ts
  tokens : ∀ t ∈ ts, isQueryToken t
  same : ts.filter (· ≠ Token.space) = words.map withoutNewlines
  chars : ∀ w ∈ words, ∀ c ∈ w, c.toNat < 0x80 ∨ isDigit c

theorem Spells.append {p q : Char → Bool} {t u : Text} {ts us : List Token}
    {ws vs : List Text} (ht : Spells p t ts ws) (hu : Spells q u us vs)
    (hstart : ∀ rest, Starts q rest → Starts p (u ++ rest)) :
    Spells q (t ++ u) (ts ++ us) (ws ++ vs) where
  reads := ht.reads.append hu.reads hstart
  tokens x hx := (List.mem_append.mp hx).elim (ht.tokens x) (hu.tokens x)
  same := by rw [List.filter_append, ht.same, hu.same, List.map_append]
  chars w hw := (List.mem_append.mp hw).elim (ht.chars w) (hu.chars w)

theorem Spells.append_of_anything {q : Char → Bool} {t u : Text} {ts us : List Token}
    {ws vs : List Text} (ht : Spells anything t ts ws) (hu : Spells q u us vs) :
    Spells q (t ++ u) (ts ++ us) (ws ++ vs) :=
  ht.append hu fun _ _ => starts_anything _

theorem Spells.append_cons {p q : Char → Bool} {c : Char} {t u : Text}
    {ts us : List Token} {ws vs : List Text} (ht : Spells p t ts ws)
    (hu : Spells q (c :: u) us vs) (hc : p c) :
    Spells q (t ++ c :: u) (ts ++ us) (ws ++ vs) :=
  ht.append hu fun _ _ => starts_cons.mpr hc

theorem Spells.mono {p q : Char → Bool} {t : Text} {ts : List Token} {ws : List Text}
    (h : Spells p t ts ws) (hqp : ∀ c, q c → p c) : Spells q t ts ws :=
  ⟨h.reads.mono hqp, h.tokens, h.same, h.chars⟩

/-! ## Words -/

theorem spells_single {follow : Char → Bool} {t : Token} (h : Reads follow t [t])
    (ht : isQueryToken t) (hspace : t ≠ Token.space) (hnew : '\n' ∉ t)
    (hchars : ∀ c ∈ t, c.toNat < 0x80 ∨ isDigit c) : Spells follow t [t] [t] where
  reads := h
  tokens := List.forall_mem_singleton.mpr ht
  same := by simp [hspace, withoutNewlines_of_not_mem hnew]
  chars := List.forall_mem_singleton.mpr hchars

theorem spells_space : Spells anything [' '] [Token.space] [] where
  reads := reads_space (by decide) (by decide)
  tokens := by decide
  same := by decide
  chars _ hw := absurd hw List.not_mem_nil

theorem spells_mark {c : Char} (hc : c ∈ ['(', ')', ':']) :
    Spells anything [c] [[c]] [[c]] := by
  have hclass : ∀ c ∈ ['(', ')', ':'], c ∈ loneChars ∧
      c ∉ ['*', '~', '+', '-', '.', '/'] ∧
      isQueryToken [c] ∧ [c] ≠ Token.space ∧ '\n' ∉ [c] ∧ c.toNat < 0x80 := by
    decide
  obtain ⟨hlone, hmark, hquery, hspace, hnew, hascii⟩ := hclass c hc
  exact spells_single (reads_mark hlone hmark) hquery hspace hnew
    (List.forall_mem_singleton.mpr (.inl hascii))

theorem isQueryToken_of_isValueToken {t : Token} (h : IsValueToken t) (hparen : '(' ∉ t)
    (hcomma : t ≠ Token.comma) : isQueryToken t := by
  simp [isQueryToken, h.not_structural, hcomma, Token.not_beginsUrl hparen]

theorem spells_name {n : Text} (hn : isPlainIdent n) : Spells endsName n [n] [n] := by
  have hbare := isBareName_of_isPlainIdent hn
  refine spells_single (reads_name hbare)
    (isQueryToken_of_isValueToken hbare.isValueToken_self hbare.not_paren_mem ?_)
      hbare.isValueToken_self.not_space
    hbare.not_newline_mem fun c hc => .inl (ascii_of_isPlainIdent hn c hc)
  rintro rfl
  exact absurd hn (by decide)

theorem isQueryToken_numeral {t : Text} (h : IsNumeral t) : isQueryToken t := by
  refine isQueryToken_of_isValueToken h.isValueToken (h.not_mem_parens _ (by decide)) ?_
  rintro rfl
  exact absurd (List.mem_singleton.mpr rfl) (h.not_mem (c := ',') (by decide) (by decide)
    (by decide) (by decide))

theorem chars_of_isNumeral {t : Text} (h : IsNumeral t) :
    ∀ c ∈ t, c.toNat < 0x80 ∨ isDigit c := by
  intro c hc
  rcases ascii_or_foreign c with hascii | hforeign
  · exact .inl hascii
  · by_cases hdecimal : isDecimal c
    · exact .inr (isDigit_of_isDecimal hdecimal)
    · -- all other characters of a number are in ASCII
      have hnot := not_ascii_of_isForeign hforeign
      refine absurd hc (h.not_mem hdecimal (fun hmark => hnot ?_) ?_
        fun hsmall => hnot ?_)
      · exact (by decide : ∀ c ∈ numberMarks, c.toNat < 0x80) c hmark
      · rintro rfl
        exact hnot (by decide)
      · exact ascii_of_isSmall hsmall

theorem IsNumeral.not_newline_mem {t : Text} (h : IsNumeral t) : '\n' ∉ t :=
  h.not_mem (by decide) (by decide) (by decide) (by decide)

theorem spells_numeral {t : Text} (h : IsNumeral t) : Spells endsNumber t [t] [t] :=
  spells_single (reads_numeral h) (isQueryToken_numeral h) h.isValueToken.not_space
    h.not_newline_mem (chars_of_isNumeral h)

/-- A number, maybe with a newline after it. -/
theorem spells_numeralLine {t q : Text} (h : IsNumeral t) (hline : IsMaybeLine t q) :
    ∃ ts, Spells endsNumber q ts [q] := by
  have hwithout := hline.withoutNewlines_eq h.not_newline_mem
  rcases hline with rfl | rfl
  · exact ⟨_, spells_numeral h⟩
  · refine ⟨[t, Token.space], ?_, ?_, ?_, ?_⟩
    · exact ((reads_numeral h).append_cons (reads_space (by decide) (by decide))
        (by decide)).mono fun _ _ => rfl
    · exact List.forall_mem_cons.mpr ⟨isQueryToken_numeral h,
        List.forall_mem_singleton.mpr (by decide)⟩
    · rw [List.map_singleton, hwithout, List.filter_cons_of_pos]
      · rfl
      · exact decide_eq_true h.isValueToken.not_space
    · refine List.forall_mem_singleton.mpr fun c hc => ?_
      rcases List.mem_append.mp hc with hc | hc
      · exact chars_of_isNumeral h c hc
      · rw [List.mem_singleton.mp hc]
        exact .inl (by decide)

/-! ## Features -/

/-- The words of a query are tokens in lower case. -/
def AreWords (words : List Text) : Prop :=
  ∀ w ∈ words, ∃ raw, Shape raw ∧ w = lower raw

/-- What ends a feature. -/
def endsFeature (c : Char) : Bool :=
  c = ')'

theorem AreWords.isNumeral_of_isDigits {words : List Text} (hwords : AreWords words)
    {w : Text} (hw : w ∈ words) (hdigits : isDigits w) : IsNumeral w := by
  obtain ⟨raw, hraw, rfl⟩ := hwords w hw
  obtain ⟨heq, hne, hall⟩ := hraw.isDecimal_of_isDigits hdigits
  rw [heq]
  exact isNumeral_of_isDecimal hne hall

theorem AreWords.isPlainIdent_of_isMediaKeyword {words : List Text}
    (hwords : AreWords words) {w : Text} (hw : w ∈ words) (hkeyword : isMediaKeyword w) :
    isPlainIdent w := by
  obtain ⟨raw, hraw, rfl⟩ := hwords w hw
  obtain ⟨c, rest, heq, hc, hrest⟩ := hraw.exists_of_isMediaKeyword hkeyword
  rw [heq]
  refine isPlainIdent_cons_of_letter (isLetter_of_isSmall hc) fun d hd => ?_
  rcases Bool.or_eq_true_iff.mp (hrest d hd) with h | h
  · exact isPlainNameChar_of_isLetter (isLetter_of_isSmall h)
  · rw [of_decide_eq_true h]
    decide

/-- A value is one word, which is written as it is, or a ratio. -/
theorem mediaValue?_cases {words : List Text} {text : Text}
    (h : mediaValue? words = some text) :
    (words = [text] ∧ (isMediaNumber text ∨ isMediaKeyword text)) ∨
      ∃ high low, words = [high, ['/'], low] ∧ isDigits high ∧ isDigits low ∧
        text = high ++ '/' :: low := by
  unfold mediaValue? at h
  split at h
  · obtain ⟨hvalue, heq⟩ := Option.ite_none_right_eq_some.mp h
    cases heq
    exact .inl ⟨rfl, Bool.or_eq_true_iff.mp hvalue⟩
  · obtain ⟨hdigits, heq⟩ := Option.ite_none_right_eq_some.mp h
    cases heq
    obtain ⟨hhigh, hlow⟩ := Bool.and_eq_true_iff.mp hdigits
    exact .inr ⟨_, _, rfl, hhigh, hlow, rfl⟩
  · cases h

theorem exists_spells_value {words : List Text} (hwords : AreWords words) {text : Text}
    (h : mediaValue? words = some text) : ∃ ts, Spells endsFeature text ts words := by
  have hends : ∀ c, endsFeature c → endsName c ∧ endsNumber c := by
    intro c hc
    rw [of_decide_eq_true hc]
    decide
  rcases mediaValue?_cases h with
    ⟨rfl, hnumber | hkeyword⟩ | ⟨high, low, rfl, hhigh, hlow, rfl⟩
  · obtain ⟨t, ⟨ht, -⟩, hline⟩ := isNumeral_of_isMediaNumber hnumber
    obtain ⟨ts, hts⟩ := spells_numeralLine ht hline
    exact ⟨ts, hts.mono fun c hc => (hends c hc).2⟩
  · have hplain :=
      hwords.isPlainIdent_of_isMediaKeyword (List.mem_singleton_self _) hkeyword
    exact ⟨_, (spells_name hplain).mono fun c hc => (hends c hc).1⟩
  · have hhigh := hwords.isNumeral_of_isDigits (by simp) hhigh
    have hlow := hwords.isNumeral_of_isDigits (by simp) hlow
    -- a slash is read by itself unless a comment begins with it
    have hslash : Spells endsFeature ('/' :: low) [['/'], low] [['/'], low] := by
      refine (spells_single (t := ['/']) (reads_lone (by decide)) (by decide)
        (by decide) (by decide)
          (by decide)).append ((spells_numeral hlow).mono fun c hc =>
            (hends c hc).2) fun rest _ => ?_
      have hstar : '*' ∉ low :=
        hlow.not_mem (by decide) (by decide) (by decide) (by decide)
      obtain ⟨c, low, rfl⟩ := List.exists_cons_of_ne_nil hlow.ne_nil
      refine starts_cons.mpr ?_
      have hc : c ≠ '*' := fun hc => hstar (hc ▸ List.mem_cons_self ..)
      simp [endsLone, hc]
    exact ⟨_, (spells_numeral hhigh).append_cons hslash (by decide)⟩

theorem isPlainIdent_of_mem_mediaFeatures : ∀ n ∈ mediaFeatures, isPlainIdent n := by
  decide

/-- A feature stands alone, or its value follows after a colon. -/
theorem mediaFeature?_cases {words : List Text} {text : Text}
    (h : mediaFeature? words = some text) :
    (words = [text] ∧ text ∈ mediaFeatures) ∨
      ∃ feature value valueText, words = feature :: Token.colon :: value ∧
        feature ∈ mediaFeatures ∧
        mediaValue? value = some valueText ∧ text = feature ++ ':' :: valueText := by
  unfold mediaFeature? at h
  split at h
  · obtain ⟨hfeature, h⟩ := Option.ite_none_right_eq_some.mp h
    split at h
    · cases h
      exact .inl ⟨rfl, hfeature⟩
    · obtain ⟨valueText, hvalue, rfl⟩ := Option.map_eq_some_iff.mp h
      exact .inr ⟨_, _, valueText, rfl, hfeature, hvalue, rfl⟩
    · cases h
  · cases h

theorem exists_spells_feature {words : List Text} (hwords : AreWords words) {text : Text}
    (h : mediaFeature? words = some text) : ∃ ts, Spells endsFeature text ts words := by
  rcases mediaFeature?_cases h with
    ⟨rfl, hfeature⟩ | ⟨feature, value, valueText, rfl, hfeature, hvalue, rfl⟩
  · refine ⟨_, (spells_name (isPlainIdent_of_mem_mediaFeatures _ hfeature)).mono
      fun c hc => ?_⟩
    rw [of_decide_eq_true hc]
    decide
  · obtain ⟨-, hrest⟩ := List.forall_mem_cons.mp (List.forall_mem_cons.mp hwords).2
    obtain ⟨ts, hts⟩ := exists_spells_value hrest hvalue
    have hcolon := (spells_mark (c := ':') (by decide)).append_of_anything hts
    exact ⟨_, (spells_name (isPlainIdent_of_mem_mediaFeatures _ hfeature)).append_cons
      hcolon (by decide)⟩

/-! ## Queries -/

/-- What ends a query. -/
def endsQuery (c : Char) : Bool :=
  c = ',' || c = '\x7b'

/-- The text of the features that follow a medium. -/
def conditionsText (conditions : List Text) : Text :=
  conditions.flatMap fun condition => " and ".toList ++ condition

theorem conditionsText_cons (condition : Text) (conditions : List Text) :
    conditionsText (condition :: conditions) =
      [' '] ++ (['a', 'n', 'd'] ++ ' ' :: (condition ++ conditionsText conditions)) := by
  rw [conditionsText, List.flatMap_cons]
  simp [conditionsText]

theorem eq_append_of_dropWhile {words after : List Text} {close : Text}
    (h : words.dropWhile (· ≠ Token.closeParen) = close :: after) :
    words = words.takeWhile (· ≠ Token.closeParen) ++ Token.closeParen :: after := by
  have hclose : close = Token.closeParen := by
    have hhead := List.head?_dropWhile_not (· ≠ Token.closeParen) words
    rw [h] at hhead
    simpa using hhead
  have happend :=
    List.takeWhile_append_dropWhile (l := words) (p := (· ≠ Token.closeParen))
  rw [h, hclose] at happend
  exact happend.symm

theorem AreWords.split {words after : List Text} {close : Text} (hwords : AreWords words)
    (h : words.dropWhile (· ≠ Token.closeParen) = close :: after) :
    AreWords (words.takeWhile (· ≠ Token.closeParen)) ∧ AreWords after := by
  rw [AreWords, eq_append_of_dropWhile h, List.forall_mem_append] at hwords
  exact ⟨hwords.1, (List.forall_mem_cons.mp hwords.2).2⟩

theorem exists_spells_conditions {words : List Text} (hwords : AreWords words)
    {conditions : List Text} (h : mediaConditions? words = some conditions) :
    ∃ ts, Spells endsQuery (conditionsText conditions) ts words := by
  fun_induction mediaConditions? words generalizing conditions with
  | case1 =>
    cases h
    exact ⟨[], reads_nil _, fun t ht => absurd ht List.not_mem_nil, rfl,
      fun w hw => absurd hw List.not_mem_nil⟩
  | case3 rest close after hdrop _ ih =>
    obtain ⟨feature, hfeature, h⟩ := Option.bind_eq_some_iff.mp h
    obtain ⟨more, hmore, rfl⟩ := Option.map_eq_some_iff.mp h
    obtain ⟨-, hrest⟩ := List.forall_mem_cons.mp (List.forall_mem_cons.mp hwords).2
    have hsplit := eq_append_of_dropWhile hdrop
    obtain ⟨hinside, hafter⟩ := AreWords.split hrest hdrop
    obtain ⟨ts₁, h₁⟩ := exists_spells_feature hinside hfeature
    obtain ⟨ts₂, h₂⟩ := ih hafter hmore
    -- the parts of the first condition, put in front of the others
    -- from its end to its beginning
    have hclosing := (spells_mark (c := ')') (by decide)).append_of_anything h₂
    have hcondition := (spells_mark (c := '(') (by decide)).append_of_anything
      (h₁.append_cons hclosing (by decide))
    have hand := (spells_name (n := ['a', 'n', 'd']) (by decide)).append_cons
      (spells_space.append_of_anything hcondition) (by decide)
    have hall := spells_space.append_of_anything hand
    have htext : conditionsText (('(' :: feature ++ [')']) :: more) =
        [' '] ++ (['a', 'n', 'd'] ++
          ' ' :: ('(' :: (feature ++ ')' :: conditionsText more))) := by
      rw [conditionsText_cons, List.cons_append, List.append_assoc]
      rfl
    have hwords' : "and".toList :: ['('] :: rest =
        [] ++ ([['a', 'n', 'd']] ++ ([] ++ ([['(']] ++
          (rest.takeWhile (· ≠ Token.closeParen) ++ ([[')']] ++ after))))) := by
      nth_rewrite 1 [hsplit]
      simp [Token.closeParen]
    rw [htext, hwords']
    exact ⟨_, hall⟩
  | case2 | case4 | case5 => cases h

theorem isPlainIdent_of_mem_mediaTypes : ∀ n ∈ mediaTypes, isPlainIdent n := by
  decide

theorem mediaBody?_cases {types words : List Text} {text : Text}
    (h : mediaBody? types words = some text) :
    ∃ medium rest conditions, words = medium :: rest ∧ medium ∈ types ∧
      mediaConditions? rest = some conditions ∧
      text = medium ++ conditionsText conditions := by
  unfold mediaBody? at h
  split at h
  · obtain ⟨hmedium, h⟩ := Option.ite_none_right_eq_some.mp h
    obtain ⟨conditions, hconditions, rfl⟩ := Option.map_eq_some_iff.mp h
    exact ⟨_, _, conditions, rfl, hmedium, hconditions, rfl⟩
  · cases h

/-- A query has a mark in front of its medium, or none. -/
theorem mediaQuery?_cases {types words : List Text} {text : Text}
    (h : mediaQuery? types words = some text) :
    (∃ mark rest body, words = mark :: rest ∧ (mark = "only" ∨ mark = "not") ∧
        mediaBody? types rest = some body ∧ text = mark ++ ' ' :: body) ∨
      ∃ first rest, words = first :: rest ∧ ¬ (first = "only" ∨ first = "not") ∧
        mediaBody? types words = some text := by
  unfold mediaQuery? at h
  split at h
  · split at h
    · rename_i hmark
      obtain ⟨body, hbody, rfl⟩ := Option.map_eq_some_iff.mp h
      exact .inl ⟨_, _, body, rfl, hmark, hbody, rfl⟩
    · rename_i hmark
      exact .inr ⟨_, _, rfl, hmark, h⟩
  · cases h

theorem exists_spells_body {words : List Text} (hwords : AreWords words) {text : Text}
    (h : mediaBody? mediaTypes words = some text) :
    ∃ ts, Spells endsQuery text ts words := by
  obtain ⟨medium, rest, conditions, rfl, hmedium, hconditions, rfl⟩ := mediaBody?_cases h
  obtain ⟨ts, hts⟩ :=
    exists_spells_conditions (List.forall_mem_cons.mp hwords).2 hconditions
  refine ⟨_, (spells_name (isPlainIdent_of_mem_mediaTypes _ hmedium)).append hts
    fun rest hrest => ?_⟩
  cases conditions with
  | nil =>
    refine Starts.mono hrest fun c hc => ?_
    rcases Bool.or_eq_true_iff.mp hc with hc | hc
    · rw [of_decide_eq_true hc]
      decide
    · rw [of_decide_eq_true hc]
      decide
  | cons condition conditions =>
    rw [conditionsText_cons]
    exact starts_cons.mpr (by decide)

/-- A query that was let through is read back as its words. -/
theorem exists_spells_query {words : List Text} (hwords : AreWords words) {text : Text}
    (h : mediaQuery? mediaTypes words = some text) :
    ∃ ts, Spells endsQuery text ts words := by
  rcases mediaQuery?_cases h with ⟨mark, rest, body, rfl, hmark, hbody, rfl⟩ |
    ⟨-, -, -, -, hbody⟩
  · obtain ⟨ts, hts⟩ := exists_spells_body (List.forall_mem_cons.mp hwords).2 hbody
    have hplain : isPlainIdent mark := by
      rcases hmark with rfl | rfl <;> decide
    exact ⟨_, (spells_name hplain).append_cons (spells_space.append_of_anything hts)
      (by decide)⟩
  · exact exists_spells_body hwords hbody

/-! ## Newlines -/

/-- Only numbers have newlines, so no word becomes a parenthesis without them. -/
theorem ne_closeParen_of_withoutNewlines {words : List Text} (hwords : AreWords words)
    (h : ∀ w ∈ words, w ≠ Token.closeParen) :
    ∀ w ∈ words.map withoutNewlines, w ≠ Token.closeParen := by
  intro w hw
  obtain ⟨w, hmem, rfl⟩ := List.mem_map.mp hw
  obtain ⟨raw, hraw, rfl⟩ := hwords w hmem
  by_cases hnumber : BeginsNumber (lower raw)
  · obtain ⟨c, rest, heq, hc, -⟩ := hnumber.exists_cons
    have hclass : ∀ d ∈ ['\n', ')'], ¬ (isDecimal d ∨ d = '.' ∨ d = '+' ∨ d = '-') := by
      decide
    have hnew : c ≠ '\n' := by
      rintro rfl
      exact hclass '\n' (by decide) hc
    have hcons : withoutNewlines (c :: rest) = c :: withoutNewlines rest :=
      List.filter_cons_of_pos (decide_eq_true hnew)
    rw [heq, hcons]
    intro hparen
    rw [(List.cons.inj hparen).1] at hc
    exact hclass ')' (by decide) hc
  · rw [withoutNewlines_of_not_mem (hraw.no_newline hnumber)]
    exact h _ hmem

theorem mediaValue?_withoutNewlines {words : List Text} (hwords : AreWords words)
    {text : Text} (h : mediaValue? words = some text) :
    mediaValue? (words.map withoutNewlines) = some (withoutNewlines text) := by
  rcases mediaValue?_cases h with ⟨rfl, hvalue⟩ | ⟨high, low, rfl, hhigh, hlow, rfl⟩
  · rw [List.map_singleton, mediaValue?, if_pos]
    rcases hvalue with hnumber | hkeyword
    · obtain ⟨t, ⟨ht, hplain⟩, hline⟩ := isNumeral_of_isMediaNumber hnumber
      rw [hline.withoutNewlines_eq ht.not_newline_mem, hplain]
      rfl
    · have hplain :=
        hwords.isPlainIdent_of_isMediaKeyword (List.mem_singleton_self _) hkeyword
      rw [withoutNewlines_of_not_mem (not_newline_mem_of_isPlainIdent hplain), hkeyword,
        Bool.or_true]
  · have hhigh' := (hwords.isNumeral_of_isDigits (by simp) hhigh).not_newline_mem
    have hlow' := (hwords.isNumeral_of_isDigits (by simp) hlow).not_newline_mem
    have hslash : '\n' ∉ high ++ '/' :: low := by simp [hhigh', hlow']
    rw [withoutNewlines_of_not_mem hslash, List.map_cons, List.map_cons,
      List.map_singleton, withoutNewlines_of_not_mem hhigh',
      withoutNewlines_of_not_mem hlow']
    exact if_pos (Bool.and_eq_true_iff.mpr ⟨hhigh, hlow⟩)

theorem mediaFeature?_withoutNewlines {words : List Text} (hwords : AreWords words)
    {text : Text} (h : mediaFeature? words = some text) :
    mediaFeature? (words.map withoutNewlines) = some (withoutNewlines text) := by
  have hnew : ∀ feature ∈ mediaFeatures, withoutNewlines feature = feature :=
    fun _ hfeature =>
    withoutNewlines_of_not_mem (not_newline_mem_of_isPlainIdent
      (isPlainIdent_of_mem_mediaFeatures _ hfeature))
  rcases mediaFeature?_cases h with
    ⟨rfl, hfeature⟩ | ⟨feature, value, valueText, rfl, hfeature, hvalue, rfl⟩
  · rw [List.map_singleton, hnew _ hfeature]
    exact if_pos hfeature
  · obtain ⟨-, hrest⟩ := List.forall_mem_cons.mp (List.forall_mem_cons.mp hwords).2
    have hcolon : withoutNewlines Token.colon = [':'] := by decide
    rw [List.map_cons, List.map_cons, hcolon, hnew _ hfeature, mediaFeature?,
      if_pos hfeature, mediaValue?_withoutNewlines hrest hvalue, withoutNewlines_append,
      hnew _ hfeature]
    rfl

/-- A condition and what follows it. -/
theorem mediaConditions?_cons {inside after : List Text}
    (h : ∀ w ∈ inside, w ≠ Token.closeParen) :
    mediaConditions? ("and".toList :: ['('] :: (inside ++ Token.closeParen :: after)) =
      (mediaFeature? inside).bind fun feature =>
        (mediaConditions? after).map (('(' :: feature ++ [')']) :: ·) := by
  have hinside : ∀ w ∈ inside, decide (w ≠ Token.closeParen) = true :=
    fun w hw => decide_eq_true (h w hw)
  have htake : (inside ++ Token.closeParen :: after).takeWhile (· ≠ Token.closeParen) =
      inside := by
    rw [List.takeWhile_append_of_pos hinside]
    exact List.append_nil _
  have hdrop : (inside ++ Token.closeParen :: after).dropWhile (· ≠ Token.closeParen) =
      Token.closeParen :: after := by
    rw [List.dropWhile_append_of_pos hinside]
    rfl
  rw [mediaConditions?, if_pos rfl]
  split
  · rename_i hnil
    rw [hdrop] at hnil
    cases hnil
  · rename_i hcons
    rw [hdrop] at hcons
    cases hcons
    rw [htake]

theorem withoutNewlines_conditionsText (conditions : List Text) :
    withoutNewlines (conditionsText conditions) =
      conditionsText (conditions.map withoutNewlines) := by
  induction conditions with
  | nil => rfl
  | cons condition conditions ih =>
    rw [List.map_cons, conditionsText_cons, conditionsText_cons, ← ih]
    simp [withoutNewlines]

theorem mediaConditions?_withoutNewlines {words : List Text} (hwords : AreWords words)
    {conditions : List Text} (h : mediaConditions? words = some conditions) :
    mediaConditions? (words.map withoutNewlines) =
      some (conditions.map withoutNewlines) := by
  fun_induction mediaConditions? words generalizing conditions with
  | case1 =>
    cases h
    rw [List.map_nil, mediaConditions?]
  | case3 rest close after hdrop _ ih =>
    obtain ⟨feature, hfeature, h⟩ := Option.bind_eq_some_iff.mp h
    obtain ⟨more, hmore, rfl⟩ := Option.map_eq_some_iff.mp h
    obtain ⟨-, hrest⟩ := List.forall_mem_cons.mp (List.forall_mem_cons.mp hwords).2
    have hsplit := eq_append_of_dropWhile hdrop
    obtain ⟨hinside, hafter⟩ := AreWords.split hrest hdrop
    have hparen := ne_closeParen_of_withoutNewlines hinside fun w hw => by
      simpa using List.mem_takeWhile_imp hw
    have hwords' : ("and".toList :: ['('] :: rest).map withoutNewlines =
        "and".toList :: ['('] ::
        ((rest.takeWhile (· ≠ Token.closeParen)).map withoutNewlines ++
          Token.closeParen :: after.map withoutNewlines) := by
      nth_rewrite 1 [hsplit]
      simp [withoutNewlines, Token.closeParen]
    rw [hwords', mediaConditions?_cons hparen,
      mediaFeature?_withoutNewlines hinside hfeature, ih hafter hmore]
    simp [withoutNewlines]
  | case2 | case4 | case5 => cases h

theorem mediaBody?_withoutNewlines {words : List Text} (hwords : AreWords words)
    {text : Text} (h : mediaBody? mediaTypes words = some text) :
    mediaBody? mediaTypes (words.map withoutNewlines) = some (withoutNewlines text) := by
  obtain ⟨medium, rest, conditions, rfl, hmedium, hconditions, rfl⟩ := mediaBody?_cases h
  have hnew := not_newline_mem_of_isPlainIdent (isPlainIdent_of_mem_mediaTypes _ hmedium)
  rw [List.map_cons, withoutNewlines_of_not_mem hnew, mediaBody?, if_pos hmedium,
    mediaConditions?_withoutNewlines (List.forall_mem_cons.mp hwords).2 hconditions,
    withoutNewlines_append, withoutNewlines_of_not_mem hnew]
  exact congrArg (fun t => some (medium ++ t))
    (withoutNewlines_conditionsText conditions).symm

/-- A query that was let through is let through without its newlines, too. -/
theorem mediaQuery?_withoutNewlines {words : List Text} (hwords : AreWords words)
    {text : Text} (h : mediaQuery? mediaTypes words = some text) :
    mediaQuery? mediaTypes (words.map withoutNewlines) = some (withoutNewlines text) := by
  have hmarks : ∀ first : Text, first = "only" ∨ first = "not" → '\n' ∉ first := by
    rintro first (rfl | rfl) <;> decide
  rcases mediaQuery?_cases h with ⟨mark, rest, body, rfl, hmark, hbody, rfl⟩ |
    ⟨first, rest, rfl, hmark, hbody⟩
  · rw [List.map_cons, withoutNewlines_of_not_mem (hmarks mark hmark), mediaQuery?,
      if_pos hmark, mediaBody?_withoutNewlines (List.forall_mem_cons.mp hwords).2 hbody,
      withoutNewlines_append, withoutNewlines_of_not_mem (hmarks mark hmark)]
    rfl
  · -- the medium comes first and has no newline, so it is not taken for a mark now
    obtain ⟨medium, others, conditions, heq, hmedium, -⟩ := mediaBody?_cases hbody
    obtain ⟨rfl, rfl⟩ := List.cons.inj heq
    have hnew :=
      not_newline_mem_of_isPlainIdent (isPlainIdent_of_mem_mediaTypes _ hmedium)
    have hbody := mediaBody?_withoutNewlines hwords hbody
    rw [List.map_cons, withoutNewlines_of_not_mem hnew] at hbody ⊢
    rw [mediaQuery?, if_neg hmark, hbody]

/-! ## Lists of queries -/

/-- A query that was let through and the tokens it is read back as. From them it is
written in the same way, but for newlines. -/
structure IsQuery (text : Text) (ts : List Token) : Prop where
  reads : Reads endsQuery text ts
  tokens : ∀ t ∈ ts, isQueryToken t
  renews : mediaQuery? mediaTypes ((ts.filter (· ≠ Token.space)).map lower) =
    some (withoutNewlines text)

theorem exists_isQuery {tokens : List Token} (htokens : ∀ t ∈ tokens, Shape t)
    {text : Text}
    (h : mediaQuery? mediaTypes ((tokens.filter (· ≠ Token.space)).map lower) =
      some text) :
    ∃ ts, IsQuery text ts := by
  have hwords : AreWords ((tokens.filter (· ≠ Token.space)).map lower) := by
    intro w hw
    obtain ⟨raw, hraw, rfl⟩ := List.mem_map.mp hw
    exact ⟨raw, htokens raw (List.mem_filter.mp hraw).1, rfl⟩
  obtain ⟨ts, hts⟩ := exists_spells_query hwords h
  refine ⟨ts, hts.reads, hts.tokens, ?_⟩
  have hlower : ∀ w ∈ (tokens.filter (· ≠ Token.space)).map lower,
      lower (withoutNewlines w) = withoutNewlines w := by
    intro w hw
    obtain ⟨raw, -, rfl⟩ := hwords w hw
    exact lower_eq_self fun c hc =>
      isLowered_of_mem_lower (List.mem_filter.mp hc).1
        (hts.chars _ hw c (List.mem_filter.mp hc).1)
  rw [hts.same, List.map_map, List.map_congr_left (f := lower ∘ withoutNewlines) hlower]
  exact mediaQuery?_withoutNewlines hwords h

theorem mem_of_mem_fields {α : Type} [DecidableEq α] {sep : α} {xs field : List α}
    (h : field ∈ fields sep xs) : ∀ x ∈ field, x ∈ xs := by
  induction xs generalizing field with
  | nil =>
    rw [List.mem_singleton.mp h]
    exact fun x hx => hx
  | cons a xs ih =>
    rw [fields] at h
    split at h
    · rcases List.mem_cons.mp h with rfl | h
      · exact fun x hx => absurd hx List.not_mem_nil
      · exact fun x hx => List.mem_cons_of_mem _ (ih h x hx)
    · split at h
      · rw [List.mem_singleton.mp h]
        intro x hx
        rw [List.mem_singleton.mp hx]
        exact List.mem_cons_self ..
      · rename_i field' more heq
        rcases List.mem_cons.mp h with rfl | h
        · intro x hx
          rcases List.mem_cons.mp hx with rfl | hx
          · exact List.mem_cons_self ..
          · exact List.mem_cons_of_mem _
              (ih (by rw [heq]; exact List.mem_cons_self ..) x hx)
        · exact fun x hx =>
            List.mem_cons_of_mem _ (ih (by rw [heq]; exact List.mem_cons_of_mem _ h) x hx)

theorem value_collect {α β : Type} (f : α → Traced β) (xs : List α) :
    (Traced.collect f xs).value = xs.map fun x => (f x).value := by
  induction xs with
  | nil => rfl
  | cons x xs ih => simp [Traced.collect, ih]

/-- The queries of a list that were let through, with their tokens. -/
theorem exists_queries {header : List Token} (hheader : ∀ t ∈ header, Shape t) :
    ∃ queries : List (Text × List Token),
      (filterMedia mediaTypes header).value = joined ", " (queries.map Prod.fst) ∧
      ∀ q ∈ queries, IsQuery q.1 q.2 := by
  have hfields : ∀ tokens ∈ fields Token.comma header, ∀ t ∈ tokens, Shape t :=
    fun tokens htokens t ht => hheader t (mem_of_mem_fields htokens t ht)
  have hvalue : (filterMedia mediaTypes header).value =
      joined ", " ((fields Token.comma header).flatMap fun tokens =>
        (filterQuery mediaTypes tokens).value) := by
    rw [filterMedia, Traced.value_bind, Traced.value_pure, value_collect,
      List.flatMap_def]
  rw [hvalue]
  generalize fields Token.comma header = parts at hfields
  suffices hqueries : ∃ queries : List (Text × List Token),
      (parts.flatMap fun tokens => (filterQuery mediaTypes tokens).value) =
        queries.map Prod.fst ∧
      ∀ q ∈ queries, IsQuery q.1 q.2 by
    obtain ⟨queries, heq, hall⟩ := hqueries
    exact ⟨queries, by rw [heq], hall⟩
  induction parts with
  | nil => exact ⟨[], rfl, fun q hq => absurd hq List.not_mem_nil⟩
  | cons tokens parts ih =>
    obtain ⟨htokens, hparts⟩ := List.forall_mem_cons.mp hfields
    obtain ⟨queries, heq, hall⟩ := ih hparts
    rw [List.flatMap_cons, heq]
    unfold filterQuery
    split
    · rename_i query hquery
      obtain ⟨ts, hts⟩ := exists_isQuery htokens hquery
      exact ⟨(query, ts) :: queries, rfl, List.forall_mem_cons.mpr ⟨hts, hall⟩⟩
    · exact ⟨queries, rfl, hall⟩

/-- The tokens of a list of queries. -/
def queriesReading : List (List Token) → List Token
  | [] => []
  | [ts] => ts
  | ts :: rest => ts ++ [Token.comma, Token.space] ++ queriesReading rest

theorem mem_queriesReading {t : Token} {tss : List (List Token)}
    (h : t ∈ queriesReading tss) :
    t ∈ [Token.comma, Token.space] ∨ ∃ ts ∈ tss, t ∈ ts := by
  induction tss with
  | nil => cases h
  | cons ts rest ih =>
    cases rest with
    | nil => exact .inr ⟨ts, List.mem_cons_self .., h⟩
    | cons ts' rest =>
      rw [queriesReading, List.mem_append, List.mem_append] at h
      · rcases h with (h | h) | h
        · exact .inr ⟨ts, List.mem_cons_self .., h⟩
        · exact .inl h
        · rcases ih h with h | ⟨us, hus, h⟩
          · exact .inl h
          · exact .inr ⟨us, List.mem_cons_of_mem _ hus, h⟩
      · simp

/-- A list of queries that was let through is read back. -/
theorem reads_queries {queries : List (Text × List Token)}
    (h : ∀ q ∈ queries, IsQuery q.1 q.2) :
    Reads endsQuery (joined ", " (queries.map Prod.fst))
      (queriesReading (queries.map Prod.snd)) := by
  have hsep : Reads anything [',', ' '] [Token.comma, Token.space] :=
    (reads_mark (c := ',') (by decide) (by decide)).append_of_anything
      (reads_space (by decide) (by decide))
  induction queries with
  | nil => exact reads_nil _
  | cons q rest ih =>
    obtain ⟨hq, hrest⟩ := List.forall_mem_cons.mp h
    cases rest with
    | nil => exact hq.reads
    | cons q' rest =>
      have htext : joined ", " ((q :: q' :: rest).map Prod.fst) =
          q.1 ++ (',' :: ' ' :: joined ", " ((q' :: rest).map Prod.fst)) := by
        rw [List.map_cons, List.map_cons, joined, ← List.map_cons]
        · simp
        · simp
      have hreading : queriesReading ((q :: q' :: rest).map Prod.snd) =
          q.2 ++ (Token.comma :: Token.space :: queriesReading
            ((q' :: rest).map Prod.snd)) := by
        rw [List.map_cons, List.map_cons, queriesReading, ← List.map_cons]
        · simp
        · simp
      rw [htext, hreading]
      exact hq.reads.append_cons (hsep.append_of_anything (ih hrest)) (by decide)

end CssGuard
