import CssGuard.Text.Ascii
import CssGuard.Text.Digit

/-!
# Character classes

The classes agree on ASCII characters, where every question is settled by looking at 128
cases, and every character outside ASCII can stand in a name.

- `forall_ascii`: a statement about ASCII characters, checked case by case
- `isDecimal_eq_of_ascii`, `isDigit_eq_of_ascii`: the digits of ASCII
- `isDigit_of_isDecimal`: a decimal digit is a digit
- `isNameChar_of_isForeign`, `isNameChar_of_isPlainNameChar`:
  names inside and outside ASCII
- `isPlainIdent_cases`: the two shapes of an identifier
-/

namespace CssGuard.Text

/-- What holds of the first 128 characters holds of every ASCII character. -/
theorem forall_ascii (P : Char → Prop) (h : ∀ n : Fin 128, P (Char.ofNat n)) {c : Char}
    (hc : c.toNat < 0x80) : P c := by
  have := h ⟨c.toNat, hc⟩
  rwa [Char.ofNat_toNat] at this

theorem ascii_or_foreign (c : Char) : c.toNat < 0x80 ∨ isForeign c := by
  unfold isForeign
  simp only [decide_eq_true_eq]
  omega

theorem not_ascii_of_isForeign {c : Char} (h : isForeign c) : ¬ c.toNat < 0x80 := by
  unfold isForeign at h
  simp only [decide_eq_true_eq] at h
  omega

theorem toLower_of_isForeign {c : Char} (h : isForeign c) : c.toLower = c := by
  have hc := not_ascii_of_isForeign h
  have hnat : c.toNat = c.val.toNat := rfl
  have hZ : ('Z' : Char).val.toNat = 0x5a := rfl
  refine dif_neg ?_
  rintro ⟨-, hz⟩
  rw [UInt32.le_iff_toNat_le] at hz
  omega

/-! ## Digits -/

theorem exists_range_of_containsCode {n : Nat} {ranges : Ranges}
    (h : ranges.containsCode n) : ∃ r ∈ ranges, r.1 ≤ n ∧ n ≤ r.2 := by
  induction ranges with
  | nil => cases h
  | cons r rest ih =>
    obtain ⟨first, last⟩ := r
    rw [Ranges.containsCode] at h
    split at h
    · cases h
    · rename_i hfirst
      rcases (Bool.or_eq_true _ _).mp h with hlast | hrest
      · exact ⟨(first, last), List.mem_cons_self .., by omega, of_decide_eq_true hlast⟩
      · obtain ⟨r, hr, hn⟩ := ih hrest
        exact ⟨r, List.mem_cons_of_mem _ hr, hn⟩

/-- In ascending ranges the search finds every code point that lies in one of them. -/
theorem containsCode_of_range {n : Nat} {ranges : Ranges}
    (hsorted : ranges.Pairwise (·.1 ≤ ·.1)) {r : Nat × Nat} (hr : r ∈ ranges)
    (hfirst : r.1 ≤ n) (hlast : n ≤ r.2) : ranges.containsCode n := by
  induction ranges with
  | nil => cases hr
  | cons r' rest ih =>
    obtain ⟨hhead, htail⟩ := List.pairwise_cons.mp hsorted
    rw [Ranges.containsCode]
    rcases List.mem_cons.mp hr with rfl | hr
    · rw [if_neg (by omega)]
      simp [hlast]
    · have := hhead r hr
      rw [if_neg (by omega)]
      simp [ih htail hr]

/-- Among the ASCII characters the digits of a number are the ten digits. -/
theorem isDecimal_eq_of_ascii {c : Char} (h : c.toNat < 0x80) :
    isDecimal c = isPlainDigit c :=
  forall_ascii (fun c => isDecimal c = isPlainDigit c) (by decide) h

/-- Among the ASCII characters the digits in the wider sense are the ten digits, too. -/
theorem isDigit_eq_of_ascii {c : Char} (h : c.toNat < 0x80) :
    isDigit c = isPlainDigit c :=
  forall_ascii (fun c => isDigit c = isPlainDigit c) (by decide) h

theorem decimalRanges_inside :
    ∀ r ∈ decimalRanges, ∃ r' ∈ digitRanges, r'.1 ≤ r.1 ∧ r.2 ≤ r'.2 := by
  decide +kernel

theorem isDigit_of_isDecimal {c : Char} (h : isDecimal c) : isDigit c := by
  obtain ⟨r, hr, hfirst, hlast⟩ := exists_range_of_containsCode h
  obtain ⟨r', hr', h₁, h₂⟩ := decimalRanges_inside r hr
  exact containsCode_of_range (by decide) hr' (by omega) (by omega)

/-! ## Names -/

theorem isNameStart_of_isForeign {c : Char} (h : isForeign c) : isNameStart c := by
  simp [isNameStart, h]

theorem isNameChar_of_isForeign {c : Char} (h : isForeign c) : isNameChar c := by
  simp [isNameChar, isNameStart_of_isForeign h]

/-- The name characters of ASCII are those that need no escape anywhere. -/
theorem isNameChar_eq_of_ascii {c : Char} (h : c.toNat < 0x80) :
    isNameChar c = isPlainNameChar c :=
  forall_ascii (fun c => isNameChar c = isPlainNameChar c) (by decide) h

/-- The small letters by their code points. -/
theorem isSmall_iff {c : Char} : isSmall c ↔ 0x61 ≤ c.toNat ∧ c.toNat ≤ 0x7a := by
  show (decide (c.val ≥ 0x61) && decide (c.val ≤ 0x7a)) = true ↔ _
  rw [Bool.and_eq_true, decide_eq_true_eq, decide_eq_true_eq, ge_iff_le,
    UInt32.le_iff_toNat_le, UInt32.le_iff_toNat_le]
  rfl

/-- The letters by their code points. -/
theorem isLetter_iff {c : Char} :
    isLetter c ↔ (0x41 ≤ c.toNat ∧ c.toNat ≤ 0x5a) ∨
    (0x61 ≤ c.toNat ∧ c.toNat ≤ 0x7a) := by
  show (decide (c.val ≥ 0x41 ∧ c.val ≤ 0x5a) || isSmall c) = true ↔ _
  rw [Bool.or_eq_true, isSmall_iff, decide_eq_true_eq, ge_iff_le, UInt32.le_iff_toNat_le,
    UInt32.le_iff_toNat_le]
  rfl

theorem ascii_of_isPlainNameChar {c : Char} (h : isPlainNameChar c) : c.toNat < 0x80 := by
  simp only [isPlainNameChar, isLetter_iff, isPlainDigit, Char.isDigit, Bool.or_eq_true,
    Bool.and_eq_true, decide_eq_true_eq, UInt32.le_iff_toNat_le, ge_iff_le] at h
  have : c.toNat = c.val.toNat := rfl
  rcases h with ((h | h) | rfl) | rfl
  · grind
  · grind
  · decide
  · decide

theorem isPlainNameChar_of_isLetter {c : Char} (h : isLetter c) : isPlainNameChar c := by
  simp [isPlainNameChar, h]

theorem isLetter_of_isSmall {c : Char} (h : isSmall c) : isLetter c :=
  isLetter_iff.mpr (.inr (isSmall_iff.mp h))

theorem ascii_of_isSmall {c : Char} (h : isSmall c) : c.toNat < 0x80 :=
  ascii_of_isPlainNameChar (isPlainNameChar_of_isLetter (isLetter_of_isSmall h))

theorem isNameChar_of_isPlainNameChar {c : Char} (h : isPlainNameChar c) :
    isNameChar c := by
  rw [isNameChar_eq_of_ascii (ascii_of_isPlainNameChar h)]
  exact h

/-! ## Identifiers in plain characters -/

/-- An identifier begins with a letter or low line, maybe after a hyphen. -/
theorem isPlainIdent_cases {t : Text} (h : isPlainIdent t) :
    (∃ c rest, t = c :: rest ∧ (isLetter c || c = '_') ∧ rest.all isPlainNameChar) ∨
    (∃ c rest, t = '-' :: c :: rest ∧ (isLetter c || c = '_') ∧
      rest.all isPlainNameChar) := by
  unfold isPlainIdent at h
  split at h
  · rename_i c rest
    exact .inr ⟨c, rest, rfl, (Bool.and_eq_true_iff.mp h).1,
      (Bool.and_eq_true_iff.mp h).2⟩
  · rename_i c rest _
    exact .inl ⟨c, rest, rfl, (Bool.and_eq_true_iff.mp h).1,
      (Bool.and_eq_true_iff.mp h).2⟩
  · cases h

theorem isPlainNameChar_of_begins {c : Char} (h : isLetter c || c = '_') :
    isPlainNameChar c := by
  unfold isPlainNameChar
  rcases Bool.or_eq_true_iff.mp h with h | h <;> simp [h]

theorem isPlainIdent_cons_of_letter {c : Char} {t : Text} (hc : isLetter c)
    (ht : ∀ d ∈ t, isPlainNameChar d) : isPlainIdent (c :: t) := by
  have hall : ((isLetter c || c = '_') && t.all isPlainNameChar) = true := by
    rw [hc, List.all_eq_true.mpr ht]
    rfl
  unfold isPlainIdent
  split
  · rename_i heq
    cases heq
    exact absurd hc (by decide)
  · rename_i heq
    cases heq
    exact hall
  · rename_i heq
    cases heq

theorem all_of_isPlainIdent {t : Text} (h : isPlainIdent t) :
    ∀ c ∈ t, isPlainNameChar c := by
  rcases isPlainIdent_cases h with ⟨c, rest, rfl, hc, hrest⟩ | ⟨c, rest, rfl, hc, hrest⟩
  · exact List.forall_mem_cons.mpr ⟨isPlainNameChar_of_begins hc,
      List.all_eq_true.mp hrest⟩
  · exact List.forall_mem_cons.mpr ⟨rfl,
      List.forall_mem_cons.mpr ⟨isPlainNameChar_of_begins hc, List.all_eq_true.mp hrest⟩⟩

theorem ascii_of_isPlainIdent {t : Text} (h : isPlainIdent t) : ∀ c ∈ t, c.toNat < 0x80 :=
  fun c hc => ascii_of_isPlainNameChar (all_of_isPlainIdent h c hc)

end CssGuard.Text
