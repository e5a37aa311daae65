import CssGuard.Proofs.Value.Written

/-!
# The forms of written tokens

A token of a sanitized value has a form again when it is read back: quantities in normal
form are in normal form, keywords are in small letters, strings and URLs are complete. The
one exception is a number that lost its plus sign in front of a digit outside ASCII.

- `normalQuantity?_eq_self`: a quantity in normal form stays as it is
- `Form.of_lower`: a token in small letters has the form of the token it comes from
- `Form.of_quote`, `Form.of_url`: strings and URLs
- `beginsForeign`: the text begins with a digit outside ASCII
- `IsNumeral.form_eq`: a numeral has the form of a quantity, unless it begins so
-/

namespace CssGuard

open Text Escape
open scoped Text.ByCharacter

/-! ## Quantities -/

theorem step_smallNumber (s : NumberState) {c : Char} (hc : c ≠ 'E') :
    smallNumber.step s c = number.step s c := by
  cases s <;> simp [smallNumber, number, numberWith, numberWith.mark, hc]

theorem run_smallNumber {t : Text} (h : 'E' ∉ t) (s : NumberState) :
    smallNumber.run s t = number.run s t := by
  induction t generalizing s with
  | nil => rfl
  | cons c t ih =>
    rw [List.mem_cons, not_or] at h
    rw [Automaton.run, Automaton.run, step_smallNumber s (Ne.symm h.1)]
    exact congrArg _ (funext (ih h.2))

theorem stuck_smallNumber {t : Text} : ∀ {s : NumberState}, number.Stuck s t →
    smallNumber.Stuck s t := by
  induction t with
  | nil => exact fun _ => trivial
  | cons c t ih =>
    intro s h s' hs'
    obtain ⟨hfinal, hstuck⟩ :=
      h s' (step_numberWith_mono (fun c hc => by simp at hc; simp [hc]) hs')
    exact ⟨hfinal, ih hstuck⟩

/-- A numeral without a capital is a quantity. -/
theorem isQuantity_of_isNumeral {t : Text} (h : IsNumeral t) (hcapital : 'E' ∉ t) :
    isQuantity t := by
  obtain ⟨digits, unit, rfl, hdigits, hunit⟩ := h
  obtain ⟨s, hrun, hfinal⟩ := (accepts_iff _ _).mp hdigits
  have hstuck := stuck_unit s (isUnitText_of_isSmallUnit hunit) (starts_nil _)
  rw [List.append_nil] at hstuck
  rw [← run_smallNumber fun hmem => hcapital (List.mem_append_left _ hmem)] at hrun
  have hlongest := smallNumber.longest?_append hrun hfinal (stuck_smallNumber hstuck)
  refine Bool.or_eq_true_iff.mpr (.inl ?_)
  dsimp only
  rw [hlongest]
  exact hunit

theorem head?_leadZero (t : Text) : (leadZero t).head? ≠ some '.' := by
  unfold leadZero
  split
  · intro heq
    cases heq
  · rename_i hpoint
    intro heq
    obtain ⟨rest, rfl⟩ := List.head?_eq_some_iff.mp heq
    exact hpoint rest rfl

/-- A digit before its point gives a text no sign. -/
theorem head_leadZero {t : Text} (h : ∀ c ∈ t.head?, c ∉ ['+', '-']) :
    ∀ c ∈ (leadZero t).head?, c ∉ ['+', '-', '.'] := by
  intro c hc
  have hpoint : c ≠ '.' := fun heq => head?_leadZero t (heq ▸ hc)
  have hsign : c ∉ ['+', '-'] := by
    by_cases hlead : t.head? = some '.'
    · obtain ⟨rest, rfl⟩ := List.head?_eq_some_iff.mp hlead
      cases hc
      decide
    · rw [leadZero_eq_self hlead] at hc
      exact h c hc
  simp only [List.mem_cons, List.not_mem_nil, or_false, not_or] at hsign ⊢
  exact ⟨hsign.1, hsign.2, hpoint⟩

theorem mem_leadZero {c : Char} {t : Text} (h : c ∈ leadZero t) : c = '0' ∨ c ∈ t := by
  unfold leadZero at h
  split at h
  · exact List.mem_cons.mp h
  · exact .inr h

theorem IsMaybeLine.head? {t q : Text} (h : IsMaybeLine t q) (hne : t ≠ []) :
    q.head? = t.head? := by
  obtain ⟨c, t, rfl⟩ := List.exists_cons_of_ne_nil hne
  rcases h with rfl | rfl <;> rfl

theorem IsMaybeLine.mem {t q : Text} (h : IsMaybeLine t q) {c : Char} (hc : c ∈ t) :
    c ∈ q := by
  rcases h with rfl | rfl
  · exact hc
  · exact List.mem_append_left _ hc

/-- What the normal form of a quantity looks like: it keeps a minus sign where the entry
permits it, and no point comes first. -/
theorem cases_of_normalQuantity? {e : Entry} {q r : Text}
    (h : normalQuantity? e q = some r) :
    (∀ c ∈ r, c = '0' ∨ c ∈ q) ∧
      ((∃ u, r = '-' :: leadZero u ∧ e.allows .negativeQuantity) ∨
        (e.allows .quantity ∧ ∀ c ∈ r.head?, c ∉ ['+', '-', '.'])) := by
  obtain ⟨hquantity, hcases⟩ := normalQuantity?_cases h
  rcases hcases with ⟨rest, rfl, hentry, rfl⟩ | ⟨rest, rfl, hentry, rfl⟩ |
    ⟨rest, rfl, hentry, rfl⟩ | ⟨hhead, hentry, rfl⟩
  · refine ⟨fun c hc => (mem_leadZero hc).imp_right (List.mem_cons_of_mem _),
      .inr ⟨hentry, head_leadZero ?_⟩⟩
    -- what follows the plus sign is no sign
    obtain ⟨t, ht, hline⟩ := isNumeral_of_isQuantity hquantity
    obtain ⟨t', rfl, hrest⟩ := hline.of_cons ht.ne_nil
    obtain ⟨d, more, rfl, hd⟩ := ht.head_of_sign (by decide)
    rw [hrest.head? (List.cons_ne_nil _ _)]
    rintro c ⟨⟩
    exact hd
  · refine ⟨List.forall_mem_cons.mpr ⟨.inr (List.mem_cons_self ..), fun c hc => ?_⟩,
      .inl ⟨rest, rfl, hentry⟩⟩
    exact (mem_leadZero hc).imp_right (List.mem_cons_of_mem _)
  · exact ⟨by simp, .inr ⟨hentry, by simp⟩⟩
  · exact ⟨fun c hc => mem_leadZero hc, .inr ⟨hentry, head_leadZero hhead⟩⟩

/-- A quantity in normal form is in normal form. -/
theorem normalQuantity?_eq_self {e : Entry} {q r t : Text}
    (h : normalQuantity? e q = some r) (hcapital : 'E' ∉ q) (ht : IsNumeral t)
    (hline : IsMaybeLine t r) : isQuantity t ∧ normalQuantity? e t = some t := by
  obtain ⟨hchars, hcases⟩ := cases_of_normalQuantity? h
  have hquantity : isQuantity t := by
    refine isQuantity_of_isNumeral ht fun hmem => ?_
    rcases hchars _ (hline.mem hmem) with heq | hmem
    · exact absurd heq (by decide)
    · exact hcapital hmem
  refine ⟨hquantity, ?_⟩
  unfold normalQuantity?
  rw [if_pos hquantity]
  rcases hcases with ⟨u, rfl, hentry⟩ | ⟨hentry, hhead⟩
  · obtain ⟨t', rfl, hrest⟩ := hline.of_cons ht.ne_nil
    obtain ⟨d, more, rfl, -⟩ := ht.head_of_sign (by decide)
    have hlead : leadZero (d :: more) = d :: more := by
      refine leadZero_eq_self ?_
      rw [← hrest.head? (List.cons_ne_nil _ _)]
      exact head?_leadZero u
    show (if _ then _ else _) = _
    rw [if_pos hentry, hlead]
  · rw [hline.head? ht.ne_nil] at hhead
    split
    · exact absurd (by decide) (hhead '+' rfl)
    · exact absurd (by decide) (hhead '-' rfl)
    · rw [if_pos hentry, leadZero_eq_self]
      exact fun hpoint => hhead _ hpoint (by decide)

theorem not_capital_mem_lower (t : Text) : 'E' ∉ lower t := by
  intro hmem
  obtain ⟨c, -, hc⟩ := exists_of_mem_lower hmem
  exact absurd (isLowered_of_lowersTo hc (by decide)).1 (by decide)

/-! ## The forms of tokens that are read back -/

/-- What is neither a string nor a URL has its form by its text in small letters alone. -/
theorem Form.ofLower_eq {e : Entry} {raw t : Token} (raw' : Token) {form : Form}
    (h : Form.ofLower e raw t = form) (hstring : ∀ body, form ≠ .string body)
    (hurl : ∀ body, form ≠ .url body) : Form.ofLower e raw' t = form := by
  unfold Form.ofLower at h ⊢
  by_cases hblank : (t.isEmpty || t.head? = some ' ') = true
  · rwa [if_pos hblank] at h ⊢
  rw [if_neg hblank] at h ⊢
  by_cases hquote : t.head? = some '"'
  · rw [if_pos hquote] at h
    exact absurd h.symm (hstring _)
  rw [if_neg hquote] at h ⊢
  by_cases hkeyword : (t = "inherit" || withoutVendor t ∈ e.literals) = true
  · rwa [if_pos hkeyword] at h ⊢
  rw [if_neg hkeyword] at h ⊢
  by_cases hcolor : isHashColor t = true
  · rwa [if_pos hcolor] at h ⊢
  rw [if_neg hcolor] at h ⊢
  by_cases hquantity : beginsQuantity t = true
  · rwa [if_pos hquantity] at h ⊢
  rw [if_neg hquantity] at h ⊢
  by_cases hopen : (List.isPrefixOf ['u', 'r', 'l', '('] t && t.getLast? =
    some ')') = true
  · rw [if_pos hopen] at h
    exact absurd h.symm (hurl _)
  rwa [if_neg hopen] at h ⊢

/-- A token in small letters has the form of the token it comes from. -/
theorem Form.of_lower {e : Entry} {raw : Token} (hlower : lower (lower raw) = lower raw)
    {form : Form} (h : Form.of e raw = form) (hstring : ∀ body, form ≠ .string body)
    (hurl : ∀ body, form ≠ .url body) : Form.of e (lower raw) = form := by
  rw [Form.of, hlower]
  exact Form.ofLower_eq _ h hstring hurl

/-- A string has the form of a string. -/
theorem Form.of_quote (e : Entry) (s : Text) :
    Form.of e (quote s) = .string (some (escapeString s)) := by
  obtain ⟨t', ht'⟩ := lower_cons (c := '"') (isLowered_of_ascii (by decide) rfl)
    (escapeString s ++ ['"'])
  rw [Form.of, show quote s = '"' :: (escapeString s ++ ['"']) from rfl, ht',
    Form.ofLower, if_neg (by simp), if_pos (show ('"' :: t').head? = some '"' from rfl),
    ← stringBody?_quote]
  rfl

/-! ## Keywords -/

/-- The characters of a keyword. -/
theorem chars_of_keyword {e : Entry} (he : e.IsPlain) {t : Text}
    (h : t = "inherit" ∨ withoutVendor t ∈ e.literals) :
    ∀ c ∈ t, isPlainNameChar c ∨ c ∈ valueSigns := by
  rcases h with rfl | h
  · exact fun c hc => .inl (all_of_isPlainIdent (by decide) c hc)
  · have hplain : ∀ c ∈ withoutVendor t, isPlainNameChar c ∨ c ∈ valueSigns := by
      rcases Bool.or_eq_true_iff.mp (he.literals _ h) with hident | hsign
      · exact fun c hc => .inl (all_of_isPlainIdent hident c hc)
      · obtain ⟨d, hd, heq⟩ := List.any_eq_true.mp hsign
        rw [of_decide_eq_true heq]
        exact List.forall_mem_singleton.mpr (.inr hd)
    rcases withoutVendor_cases t with heq | ⟨mark, hmark, heq⟩
    · rwa [heq] at hplain
    · rw [heq]
      intro c hc
      rcases List.mem_append.mp hc with hc | hc
      · have hident := isPlainIdent_vendor hmark (t := []) (by simp)
        rw [List.append_nil] at hident
        exact .inl (all_of_isPlainIdent hident c hc)
      · exact hplain c hc

/-- A keyword begins like a name, or it is a sign. -/
theorem beginsName_or_sign {e : Entry} (he : e.IsPlain) {t : Text}
    (h : t = "inherit" ∨ withoutVendor t ∈ e.literals) :
    BeginsName t ∨ ∃ c ∈ valueSigns, t = [c] := by
  rcases h with rfl | h
  · exact .inl (isBareName_of_isPlainIdent (by decide)).begins
  · rcases withoutVendor_cases t with heq | ⟨mark, hmark, heq⟩
    · rw [heq] at h
      rcases Bool.or_eq_true_iff.mp (he.literals _ h) with hident | hsign
      · exact .inl (isBareName_of_isPlainIdent hident).begins
      · obtain ⟨c, hc, hsingle⟩ := List.any_eq_true.mp hsign
        exact .inr ⟨c, hc, of_decide_eq_true hsingle⟩
    · have hident := isPlainIdent_vendor hmark (t := []) (by simp)
      rw [List.append_nil] at hident
      rw [heq]
      exact .inl ((isBareName_of_isPlainIdent hident).begins.append _)

/-- No numeral is a keyword. -/
theorem IsNumeral.not_keyword {t : Text} (ht : IsNumeral t) {e : Entry} (he : e.IsPlain) :
    ¬ (t = "inherit" || withoutVendor t ∈ e.literals) = true := by
  intro h
  have hkeyword := (Bool.or_eq_true_iff.mp h).imp of_decide_eq_true of_decide_eq_true
  obtain ⟨digits, unit, rfl, hdigits, -⟩ := ht
  have hbegins := (beginsNumber_of_accepts hdigits).append unit
  rcases beginsName_or_sign he hkeyword with hname | ⟨c, hc, heq⟩
  · exact hbegins.not_beginsName hname
  · rw [heq] at hbegins
    have hclass : ∀ c ∈ valueSigns, ¬ isDecimal c ∧ c ≠ '.' := by decide
    rcases hbegins with h | h | ⟨-, d, more, h, -⟩
    · exact (hclass c hc).1 h
    · exact (hclass c hc).2 h
    · cases h

/-! ## Numerals -/

/-- The text begins with a digit outside ASCII. A number may begin so when it lost a plus
sign, but without the sign it is not taken for one. -/
def beginsForeign (t : Text) : Bool :=
  t.head?.any fun c => isDecimal c && !isPlainDigit c

theorem head_of_isHashColor {t : Text} (h : isHashColor t) : t.head? = some '#' := by
  have hhash : ∀ u : Text, isHashColor.color u → ∃ rest, u = '#' :: rest := by
    intro u hu
    unfold isHashColor.color at hu
    split at hu
    · exact ⟨_, rfl⟩
    · cases hu
  rcases cases_of_isLineOf h with ht | ⟨u, rfl, hu⟩
  · obtain ⟨rest, rfl⟩ := hhash t ht
    rfl
  · obtain ⟨rest, rfl⟩ := hhash u hu
    rfl

theorem IsNumeral.lower_eq {t : Text} (h : IsNumeral t) (hcapital : 'E' ∉ t) :
    lower t = t := by
  refine lower_eq_self fun c hc => ?_
  by_cases hdecimal : isDecimal c
  · exact isLowered_of_isDigit (isDigit_of_isDecimal hdecimal)
  · have hcase : c ∈ numberMarks ∨ c = '%' ∨ isSmall c := by
      by_contra hnot
      simp only [not_or] at hnot
      exact h.not_mem hdecimal hnot.1 hnot.2.1 hnot.2.2 hc
    rcases hcase with hmark | rfl | hsmall
    · have hne : c ≠ 'E' := fun heq => hcapital (heq ▸ hc)
      obtain ⟨hascii, hkeep⟩ := (by decide : ∀ c ∈ numberMarks, c ≠ 'E' →
        c.toNat < 0x80 ∧ c.toLower = c) c hmark hne
      exact isLowered_of_ascii hascii hkeep
    · exact isLowered_of_ascii (by decide) rfl
    · exact isLowered_of_ascii (ascii_of_isSmall hsmall)
        (forall_ascii (fun c => isSmall c → c.toLower = c) (by decide)
          (ascii_of_isSmall hsmall) hsmall)

/-- The first character of a numeral. -/
theorem IsNumeral.exists_head {t : Text} (h : IsNumeral t) :
    ∃ c rest, t = c :: rest ∧ (isDecimal c ∨ c ∈ ['+', '-', '.']) := by
  obtain ⟨digits, unit, rfl, hdigits, -⟩ := h
  obtain ⟨c, rest, heq, hc, -⟩ :=
    ((beginsNumber_of_accepts hdigits).append unit).exists_cons
  refine ⟨c, rest, heq, hc.imp_right ?_⟩
  rintro (rfl | rfl | rfl) <;> decide

/-- A numeral in small letters has the form of a quantity, unless it begins
with a digit outside ASCII. -/
theorem IsNumeral.form_eq {t : Text} (h : IsNumeral t) (hquantity : isQuantity t)
    (hlower : lower t = t) {e : Entry} (he : e.IsPlain) :
    Form.of e t = if beginsForeign t then .other else .quantity := by
  obtain ⟨c, rest, rfl, hc⟩ := h.exists_head
  -- the tests in front of the one for quantities look for another first character
  have hclass : ∀ d ∈ [' ', '"', '#', 'u'], ¬ isDecimal d ∧ d ∉ ['+', '-', '.'] := by
    decide
  have hne : ∀ d ∈ [' ', '"', '#', 'u'], c ≠ d := by
    rintro d hd rfl
    exact hc.elim (hclass c hd).1 (hclass c hd).2
  have hcolor : ¬ isHashColor (c :: rest) = true := fun hcolor =>
    hne '#' (by decide) (Option.some.inj (head_of_isHashColor hcolor))
  rw [Form.of, hlower, Form.ofLower, if_neg (by simpa using hne ' ' (by decide)),
    if_neg (by simpa using hne '"' (by decide)), if_neg (h.not_keyword he), if_neg hcolor]
  by_cases hforeign : beginsForeign (c :: rest)
  · obtain ⟨hdecimal, hdigit⟩ :=
      Bool.and_eq_true_iff.mp (show (_ && _) = true from hforeign)
    have hsign : c ∉ ['+', '-', '.'] := fun hmem =>
      (by decide : ∀ c ∈ ['+', '-', '.'], ¬ isDecimal c) c hmem hdecimal
    simp only [List.mem_cons, List.not_mem_nil, or_false, not_or] at hsign
    have hbegins : beginsQuantity (c :: rest) = false := by
      simpa [beginsQuantity, hsign] using hdigit
    have hword : isWord (c :: rest) = false := by
      rw [Bool.eq_false_iff]
      intro hword
      obtain ⟨d, more, hd, -, hline⟩ := exists_of_isWord hword
      obtain ⟨more', heq⟩ := hline.exists_cons
      rw [← (List.cons.inj heq).1] at hd
      exact (begins_of_small hd).2 (isDigit_of_isDecimal hdecimal)
    have hname : isName (c :: rest) = false := by
      unfold isName
      split
      · rename_i heq
        exact absurd (List.cons.inj heq).1 hsign.2.1
      · exact hword
    rw [if_pos hforeign, hbegins, if_neg (by decide),
      if_neg (by simp [Ne.symm (hne 'u' (by decide))]), opensParen_eq_false
        (h.not_mem_parens _ (by decide)), if_neg (by decide), hname, hword,
      Bool.and_false, Bool.and_false]
    rfl
  · have hbegins : beginsQuantity (c :: rest) = true := by
      rw [beginsQuantity, hquantity, Bool.and_true, Bool.or_eq_true]
      rcases hc with hdecimal | hsign
      · refine .inl ?_
        by_contra hdigit
        exact hforeign (Bool.and_eq_true_iff.mpr ⟨hdecimal, by simpa using hdigit⟩)
      · refine .inr ?_
        simpa [or_assoc] using hsign
    rw [if_neg hforeign, if_pos hbegins]

theorem exists_lowerAfter_concat {c : Char} (h : IsLowered c) (t : Text) :
    ∀ before, ∃ front, lowerAfter before (t ++ [c]) = front ++ [c] := by
  induction t with
  | nil => exact fun before => ⟨[], h.lowerAfter_cons before []⟩
  | cons d t ih =>
    intro before
    obtain ⟨front, hfront⟩ := ih (d :: before)
    exact ⟨lowerBetween before d (t ++ [c]) ++ front,
      by rw [List.cons_append, lowerAfter, hfront, List.append_assoc]⟩

/-- A URL has the form of a URL. -/
theorem Form.of_url {e : Entry} (he : e.IsPlain) (uri : Text) :
    Form.of e ("url(" ++ quote uri ++ ")") = .url (some (escapeString uri)) := by
  have htoken : ("url(".toList ++ quote uri ++ ")".toList : Token) =
      'u' :: 'r' :: 'l' :: '(' :: (quote uri ++ [')']) := by
    simp
  have hkeep : ∀ c ∈ ['u', 'r', 'l', '(', ')'], IsLowered c := fun c hc => by
    obtain ⟨hascii, hlower⟩ := (by decide : ∀ c ∈ ['u', 'r', 'l', '(', ')'],
      c.toNat < 0x80 ∧ c.toLower = c) c hc
    exact isLowered_of_ascii hascii hlower
  obtain ⟨front, hfront⟩ := exists_lowerAfter_concat (hkeep ')' (by decide)) (quote uri)
    ['(', 'l', 'r', 'u']
  have hlower : lower ("url(".toList ++ quote uri ++ ")".toList : Token) =
      'u' :: 'r' :: 'l' :: '(' :: (front ++ [')']) := by
    rw [htoken, lower, (hkeep 'u' (by decide)).lowerAfter_cons,
      (hkeep 'r' (by decide)).lowerAfter_cons, (hkeep 'l' (by decide)).lowerAfter_cons,
      (hkeep '(' (by decide)).lowerAfter_cons, hfront]
  have hkeyword : ¬ ('u' :: 'r' :: 'l' :: '(' :: (front ++ [')']) = "inherit".toList ||
      withoutVendor ('u' :: 'r' :: 'l' :: '(' :: (front ++ [')'])) ∈ e.literals) =
        true := by
    intro h
    have hchars := chars_of_keyword he
      ((Bool.or_eq_true_iff.mp h).imp of_decide_eq_true of_decide_eq_true)
    exact absurd (hchars '(' (by simp)) (by decide)
  have hlast : ('u' :: 'r' :: 'l' :: '(' :: (front ++ [')'])).getLast? = some ')' := by
    rw [← List.cons_append, ← List.cons_append, ← List.cons_append, ← List.cons_append,
      List.getLast?_concat]
  rw [Form.of, hlower, Form.ofLower, if_neg (by simp), if_neg (by simp), if_neg hkeyword,
    if_neg fun hcolor => absurd (head_of_isHashColor hcolor) (by simp),
    if_neg (by simp [beginsQuantity, isPlainDigit]), if_pos (by rw [hlast]; simp),
    urlBody?_quote]

end CssGuard
