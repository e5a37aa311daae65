import CssGuard.Proofs.Text.Classes
import CssGuard.Text.Lower

/-!
# Lower case, character by character

Lower-casing is a matter of single characters, except for the capital sigma. What the rest
of the theory needs is how little of ASCII it can produce: besides the small letters, an
ASCII character of the result was there before.

- `LowersTo`: one character may become another
- `exists_of_mem_lower`, `exists_mem_lower`: the characters of a
  text and of its lower-case form
- `mem_of_mem_lower`: an ASCII character that is no small letter was there before
- `lower_eq_self`: texts that are their own lower-case form
- `lower_eq_mark_iff`: marks come from themselves only
- `lower_lower_of_ascii`: a second time changes nothing when the result is ASCII
-/

namespace CssGuard.Text

/-- The character `c` may become `d`. -/
def LowersTo (c d : Char) : Prop :=
  d ∈ lowerChar c ∨ c = 'Σ' ∧ (d = 'ς' ∨ d = 'σ')

theorem lowersTo_of_mem_lowerBetween {before after : Text} {c d : Char}
    (h : d ∈ lowerBetween before c after) : LowersTo c d := by
  unfold lowerBetween at h
  split at h
  · rename_i hc
    refine .inr ⟨hc, ?_⟩
    split at h
    · exact .inl (List.mem_singleton.mp h)
    · exact .inr (List.mem_singleton.mp h)
  · exact .inl h

theorem lowerBetween_ne_nil (before : Text) (c : Char) (after : Text) :
    lowerBetween before c after ≠ [] := by
  unfold lowerBetween lowerChar
  repeat' split
  all_goals exact List.cons_ne_nil _ _

theorem exists_of_mem_lowerAfter {d : Char} {t : Text} :
    ∀ {before : Text}, d ∈ lowerAfter before t → ∃ c ∈ t, LowersTo c d := by
  induction t with
  | nil => intro before h; cases h
  | cons c rest ih =>
    intro before h
    rcases List.mem_append.mp h with h | h
    · exact ⟨c, List.mem_cons_self .., lowersTo_of_mem_lowerBetween h⟩
    · obtain ⟨c', hc', hd⟩ := ih h
      exact ⟨c', List.mem_cons_of_mem _ hc', hd⟩

/-- Every character of the lower-case form comes from one of the text. -/
theorem exists_of_mem_lower {d : Char} {t : Text} (h : d ∈ lower t) :
    ∃ c ∈ t, LowersTo c d :=
  exists_of_mem_lowerAfter h

theorem mem_lowerAfter {c d : Char} {t : Text} (hc : c ∈ t) (hsigma : c ≠ 'Σ')
    (hd : d ∈ lowerChar c) : ∀ {before : Text}, d ∈ lowerAfter before t := by
  induction t with
  | nil => cases hc
  | cons c' rest ih =>
    intro before
    refine List.mem_append.mpr ?_
    rcases List.mem_cons.mp hc with rfl | hc
    · refine .inl ?_
      rw [lowerBetween, if_neg hsigma]
      exact hd
    · exact .inr (ih hc)

/-- What a character becomes is in the lower-case form. -/
theorem mem_lower {c d : Char} {t : Text} (hc : c ∈ t) (hsigma : c ≠ 'Σ')
    (hd : d ∈ lowerChar c) : d ∈ lower t :=
  mem_lowerAfter hc hsigma hd

theorem exists_mem_lowerAfter {c : Char} {t : Text} (hc : c ∈ t) :
    ∀ {before : Text}, ∃ d ∈ lowerAfter before t, LowersTo c d := by
  induction t with
  | nil => cases hc
  | cons c' rest ih =>
    intro before
    rcases List.mem_cons.mp hc with rfl | hc
    · obtain ⟨d, hd⟩ := List.exists_mem_of_ne_nil _ (lowerBetween_ne_nil before c rest)
      exact ⟨d, List.mem_append_left _ hd, lowersTo_of_mem_lowerBetween hd⟩
    · obtain ⟨d, hd, hcd⟩ := ih hc
      exact ⟨d, List.mem_append_right _ hd, hcd⟩

/-- Every character of a text leaves something behind. -/
theorem exists_mem_lower {c : Char} {t : Text} (hc : c ∈ t) :
    ∃ d ∈ lower t, LowersTo c d :=
  exists_mem_lowerAfter hc

/-- The first character of the lower-case form comes from the first one of the text. -/
theorem exists_lowerAfter_cons (before : Text) (c : Char) (t : Text) :
    ∃ d rest, lowerAfter before (c :: t) = d :: rest ∧ LowersTo c d := by
  obtain ⟨d, more, hcons⟩ := List.exists_cons_of_ne_nil (lowerBetween_ne_nil before c t)
  refine ⟨d, more ++ lowerAfter (c :: before) t, by rw [lowerAfter, hcons,
    List.cons_append], ?_⟩
  exact lowersTo_of_mem_lowerBetween (by rw [hcons]; exact List.mem_cons_self ..)

/-! ## The table -/

/-- A code point is kept, or moved along with the run it belongs to. -/
theorem lowerCode_cases (n : Nat) : ∀ runs : List CaseRun, lowerCode n runs = n ∨
    ∃ r ∈ runs, r.first ≤ n ∧ n ≤ r.last ∧ lowerCode n runs = r.image + (n - r.first)
  | [] => .inl rfl
  | r :: rs => by
    rw [lowerCode]
    split
    · exact .inl rfl
    · split
      · rename_i hfirst hlast
        exact .inr ⟨r, List.mem_cons_self .., by omega, hlast.1, rfl⟩
      · rcases lowerCode_cases n rs with h | ⟨r', hr', h⟩
        · exact .inl h
        · exact .inr ⟨r', List.mem_cons_of_mem _ hr', h⟩

/-- The images of a run outside ASCII lie outside ASCII, but for the Kelvin sign, and
all of them are characters. -/
theorem caseRuns_images : ∀ r ∈ caseRuns, r.last < 0x80 ∨
    (r.first = 0x212a ∧ r.last = 0x212a ∧ r.image = 0x6b) ∨
    (0x80 ≤ r.image ∧ r.image + (r.last - r.first) < 0xd800) ∨
    (0xe000 ≤ r.image ∧ r.image + (r.last - r.first) < 0x110000) := by
  decide +kernel

/-- The code points from `first` to `last` lie outside all digits. -/
def clearOfDigits (first last : Nat) : Bool :=
  digitRanges.all fun r => last.blt r.1 || r.2.blt first

theorem clearOfDigits_spec {first last : Nat} (h : clearOfDigits first last) :
    ∀ r ∈ digitRanges, last < r.1 ∨ r.2 < first := by
  intro r hr
  have hr := List.all_eq_true.mp h r hr
  rwa [Bool.or_eq_true, Nat.blt_eq, Nat.blt_eq] at hr

/-- No digit is the image of a capital. -/
theorem caseRuns_digits : ∀ r ∈ caseRuns, ∀ r' ∈ digitRanges,
    r.image + (r.last - r.first) < r'.1 ∨ r'.2 < r.image := by
  have hall : ∀ r ∈ caseRuns, clearOfDigits r.image (r.image + (r.last - r.first)) := by
    decide +kernel
  exact fun r hr => clearOfDigits_spec (hall r hr)

/-- No digit is a capital. -/
theorem caseRuns_not_digits : ∀ r ∈ caseRuns, ∀ r' ∈ digitRanges,
    r.last < r'.1 ∨ r'.2 < r.first := by
  have hall : ∀ r ∈ caseRuns, clearOfDigits r.first r.last := by
    decide +kernel
  exact fun r hr => clearOfDigits_spec (hall r hr)

/-- The Kelvin sign is the image of no capital. -/
theorem caseRuns_kelvin : ∀ r ∈ caseRuns,
    r.image + (r.last - r.first) < 0x212a ∨ 0x212a < r.image := by
  decide +kernel

theorem toNat_ofNat_of_isValidChar {n : Nat} (h : n.isValidChar) :
    (Char.ofNat n).toNat = n := by
  rw [Char.ofNat, dif_pos h]
  rfl

theorem eq_of_toNat_eq {c d : Char} (h : c.toNat = d.toNat) : c = d := by
  rw [← Char.ofNat_toNat c, h, Char.ofNat_toNat]

/-- A character outside ASCII stays, becomes another one outside ASCII along with its run,
or is one of the two that reach into ASCII. -/
theorem lowerChar_foreign {c : Char} (h : isForeign c) :
    lowerChar c = [c] ∨ (c = '\u212a' ∧ lowerChar c = ['k']) ∨
    (c = 'İ' ∧ lowerChar c = ['i', '̇']) ∨
    ∃ d r, lowerChar c = [d] ∧ isForeign d ∧ r ∈ caseRuns ∧ r.first ≤ c.toNat ∧
      c.toNat ≤ r.last ∧ d.toNat = r.image + (c.toNat - r.first) := by
  have hc := not_ascii_of_isForeign h
  by_cases hdotted : c = 'İ'
  · exact .inr (.inr (.inl ⟨hdotted, by rw [lowerChar, if_neg hc, if_pos hdotted]⟩))
  rw [lowerChar, if_neg hc, if_neg hdotted]
  rcases lowerCode_cases c.toNat caseRuns with hcode | ⟨r, hr, hfirst, hlast, hcode⟩
  · rw [hcode, Char.ofNat_toNat]
    exact .inl rfl
  · rcases caseRuns_images r hr with hascii | ⟨h₁, h₂, h₃⟩ | ⟨h₁, h₂⟩ | ⟨h₁, h₂⟩
    · omega
    · have hk : c = '\u212a' := eq_of_toNat_eq (by show c.toNat = 0x212a; omega)
      refine .inr (.inl ⟨hk, ?_⟩)
      rw [hcode, h₃, show c.toNat - r.first = 0 by omega]
    all_goals
      have hvalid : (r.image + (c.toNat - r.first)).isValidChar := by
        unfold Nat.isValidChar
        omega
      refine .inr (.inr (.inr ⟨_, r, rfl, ?_, hr, hfirst, hlast, ?_⟩))
      · rw [hcode, isForeign, toNat_ofNat_of_isValidChar hvalid, decide_eq_true_eq]
        omega
      · rw [hcode, toNat_ofNat_of_isValidChar hvalid]

/-! ## ASCII characters of the result -/

/-- The ways an ASCII character can come about. -/
theorem ascii_cases_of_lowersTo {c d : Char} (h : LowersTo c d) (hd : d.toNat < 0x80) :
    (c.toNat < 0x80 ∧ d = c.toLower) ∨ (c = '\u212a' ∧ d = 'k') ∨
    (c = 'İ' ∧ d = 'i') := by
  rcases h with h | ⟨-, rfl | rfl⟩
  · rcases ascii_or_foreign c with hc | hc
    · rw [lowerChar, if_pos hc] at h
      exact .inl ⟨hc, List.mem_singleton.mp h⟩
    · rcases lowerChar_foreign hc with
        heq | ⟨rfl, heq⟩ | ⟨rfl, heq⟩ | ⟨d', r, heq, hforeign, -⟩
      · rw [heq, List.mem_singleton] at h
        exact absurd (h ▸ hd) (not_ascii_of_isForeign hc)
      · rw [heq, List.mem_singleton] at h
        exact .inr (.inl ⟨rfl, h⟩)
      · rw [heq, List.mem_cons, List.mem_singleton] at h
        rcases h with rfl | rfl
        · exact .inr (.inr ⟨rfl, rfl⟩)
        · exact absurd hd (by decide)
      · rw [heq, List.mem_singleton] at h
        exact absurd (h ▸ hd) (not_ascii_of_isForeign hforeign)
  · exact absurd hd (by decide)
  · exact absurd hd (by decide)

theorem isSmall_toLower_or_eq {c : Char} (h : c.toNat < 0x80) :
    isSmall c.toLower ∨ c.toLower = c :=
  forall_ascii (fun c => isSmall c.toLower ∨ c.toLower = c) (by decide) h

/-- An ASCII character of the result that is no small letter was there before. -/
theorem eq_of_lowersTo {c d : Char} (h : LowersTo c d) (hd : d.toNat < 0x80)
    (hsmall : ¬ isSmall d) : c = d := by
  rcases ascii_cases_of_lowersTo h hd with ⟨hc, rfl⟩ | ⟨rfl, rfl⟩ | ⟨rfl, rfl⟩
  · rcases isSmall_toLower_or_eq hc with h' | h'
    · exact absurd h' hsmall
    · exact h'.symm
  · exact absurd (by decide) hsmall
  · exact absurd (by decide) hsmall

theorem mem_of_mem_lower {d : Char} {t : Text} (h : d ∈ lower t) (hd : d.toNat < 0x80)
    (hsmall : ¬ isSmall d) : d ∈ t := by
  obtain ⟨c, hc, hcd⟩ := exists_of_mem_lower h
  rwa [← eq_of_lowersTo hcd hd hsmall]

/-- An ASCII character leaves its small form behind. -/
theorem toLower_mem_lower {c : Char} {t : Text} (h : c ∈ t) (hc : c.toNat < 0x80) :
    c.toLower ∈ lower t := by
  refine mem_lower h ?_ ?_
  · rintro rfl
    exact absurd hc (by decide)
  · rw [lowerChar, if_pos hc]
    exact List.mem_singleton.mpr rfl

theorem mem_lower_iff {d : Char} {t : Text} (hd : d.toNat < 0x80) (hkeep : d.toLower = d)
    (hsmall : ¬ isSmall d) : d ∈ lower t ↔ d ∈ t :=
  ⟨fun h => mem_of_mem_lower h hd hsmall, fun h => hkeep ▸ toLower_mem_lower h hd⟩

/-! ## Texts that are in lower case -/

/-- The character is its own lower-case form, wherever it stands. -/
def IsLowered (c : Char) : Prop :=
  lowerChar c = [c] ∧ c ≠ 'Σ'

theorem isLowered_of_ascii {c : Char} (hc : c.toNat < 0x80) (h : c.toLower = c) :
    IsLowered c := by
  refine ⟨?_, ?_⟩
  · rw [lowerChar, if_pos hc, h]
  · rintro rfl
    exact absurd hc (by decide)

theorem isLowered_of_isDigit {c : Char} (h : isDigit c) : IsLowered c := by
  rcases ascii_or_foreign c with hc | hc
  · refine isLowered_of_ascii hc ?_
    rw [isDigit_eq_of_ascii hc] at h
    exact forall_ascii (fun c => isPlainDigit c → c.toLower = c) (by decide) hc h
  refine ⟨?_, ?_⟩
  · obtain ⟨r', hr', hrange⟩ := exists_range_of_containsCode h
    rcases lowerChar_foreign hc with
      heq | ⟨rfl, -⟩ | ⟨rfl, -⟩ | ⟨d, r, -, -, hr, hfirst, hlast, -⟩
    · exact heq
    · exact absurd h (by decide)
    · exact absurd h (by decide)
    · have := caseRuns_not_digits r hr r' hr'
      omega
  · rintro rfl
    exact absurd h (by decide)

theorem IsLowered.lowerAfter_cons {c : Char} (h : IsLowered c) (before t : Text) :
    lowerAfter before (c :: t) = c :: lowerAfter (c :: before) t := by
  rw [lowerAfter, lowerBetween, if_neg h.2, h.1]
  rfl

/-- What is in front of a character in lower case stays in front of it. -/
theorem exists_lowerAfter_append (t : Text) {c : Char} (hc : IsLowered c)
    (before rest : Text) :
    ∃ front back, lowerAfter before (t ++ c :: rest) = front ++ c :: back ∧
      ∀ d ∈ front, ∃ e ∈ t, LowersTo e d := by
  induction t generalizing before with
  | nil =>
    exact ⟨[], _, hc.lowerAfter_cons before rest, fun d hd => absurd hd List.not_mem_nil⟩
  | cons e t ih =>
    obtain ⟨front, back, hlower, hfront⟩ := ih (e :: before)
    refine ⟨lowerBetween before e (t ++ c :: rest) ++ front, back, ?_, fun d hd => ?_⟩
    · rw [List.cons_append, lowerAfter, hlower, List.append_assoc]
    · rcases List.mem_append.mp hd with hd | hd
      · exact ⟨e, List.mem_cons_self .., lowersTo_of_mem_lowerBetween hd⟩
      · obtain ⟨e', he', hlowers⟩ := hfront d hd
        exact ⟨e', List.mem_cons_of_mem _ he', hlowers⟩

theorem lower_cons {c : Char} (h : IsLowered c) (t : Text) :
    ∃ t', lower (c :: t) = c :: t' :=
  ⟨_, h.lowerAfter_cons [] t⟩

theorem lowerAfter_eq_self {t : Text} (h : ∀ c ∈ t, IsLowered c) :
    ∀ {before : Text}, lowerAfter before t = t := by
  induction t with
  | nil => intro before; rfl
  | cons c rest ih =>
    intro before
    rw [(h c (List.mem_cons_self ..)).lowerAfter_cons,
      ih fun c hc => h c (List.mem_cons_of_mem _ hc)]

theorem lower_eq_self {t : Text} (h : ∀ c ∈ t, IsLowered c) : lower t = t :=
  lowerAfter_eq_self h

/-- A mark of ASCII is the lower-case form of itself only. -/
theorem lower_eq_mark_iff {c : Char} (hc : c.toNat < 0x80) (hkeep : c.toLower = c)
    (hsmall : ¬ isSmall c) {t : Text} : lower t = [c] ↔ t = [c] := by
  have hlowered := isLowered_of_ascii hc hkeep
  constructor
  · intro h
    cases t with
    | nil => cases h
    | cons first t =>
      obtain ⟨d, rest, heq, hfirst⟩ := exists_lowerAfter_cons [] first t
      rw [lower, heq] at h
      obtain ⟨rfl, rfl⟩ := List.cons.inj h
      obtain rfl := eq_of_lowersTo hfirst hc hsmall
      rw [hlowered.lowerAfter_cons] at heq
      cases t with
      | nil => rfl
      | cons second t =>
        -- nothing becomes empty in lower case
        obtain ⟨d', rest', heq', -⟩ := exists_lowerAfter_cons [first] second t
        rw [heq'] at heq
        cases heq
  · rintro rfl
    exact lower_eq_self (List.forall_mem_singleton.mpr hlowered)

/-- What a digit comes from is that digit. -/
theorem eq_of_lowersTo_of_isDigit {c d : Char} (h : LowersTo c d) (hd : isDigit d) :
    c = d := by
  rcases ascii_or_foreign d with hascii | hforeign
  · refine eq_of_lowersTo h hascii ?_
    rw [isDigit_eq_of_ascii hascii] at hd
    exact forall_ascii (fun c => isPlainDigit c → ¬ isSmall c) (by decide) hascii hd
  obtain ⟨r', hr', hrange⟩ := exists_range_of_containsCode hd
  rcases h with h | ⟨-, rfl | rfl⟩
  · rcases ascii_or_foreign c with hc | hc
    · rw [lowerChar, if_pos hc, List.mem_singleton] at h
      have hlow := forall_ascii (fun c => c.toLower.toNat < 0x80) (by decide) hc
      exact absurd (h ▸ hlow) (not_ascii_of_isForeign hforeign)
    · rcases lowerChar_foreign hc with heq | ⟨rfl, heq⟩ | ⟨rfl, heq⟩ |
        ⟨d', r, heq, -, hr, hfirst, hlast, himage⟩
      · rw [heq, List.mem_singleton] at h
        exact h.symm
      · rw [heq, List.mem_singleton] at h
        exact absurd (h ▸ hforeign) (by decide)
      · rw [heq, List.mem_cons, List.mem_singleton] at h
        rcases h with rfl | rfl
        · exact absurd hforeign (by decide)
        · exact absurd hd (by decide)
      · rw [heq, List.mem_singleton] at h
        subst h
        have := caseRuns_digits r hr r' hr'
        omega
  · exact absurd hd (by decide)
  · exact absurd hd (by decide)

/-! ## ASCII texts -/

theorem lowerAfter_append_of_ascii {t : Text} (h : ∀ c ∈ t, c.toNat < 0x80)
    (before rest : Text) :
    lowerAfter before (t ++ rest) =
      t.map Char.toLower ++ lowerAfter (t.reverse ++ before) rest := by
  induction t generalizing before with
  | nil => rfl
  | cons c t ih =>
    have hc := h c (List.mem_cons_self ..)
    have hsigma : c ≠ 'Σ' := by
      rintro rfl
      exact absurd hc (by decide)
    rw [List.cons_append, lowerAfter, lowerBetween, if_neg hsigma, lowerChar, if_pos hc,
      ih fun c hc => h c (List.mem_cons_of_mem _ hc)]
    simp

theorem lowerAfter_of_ascii {t : Text} (h : ∀ c ∈ t, c.toNat < 0x80) {before : Text} :
    lowerAfter before t = t.map Char.toLower := by
  simpa [lowerAfter] using lowerAfter_append_of_ascii h before []

theorem lower_of_ascii {t : Text} (h : ∀ c ∈ t, c.toNat < 0x80) :
    lower t = t.map Char.toLower :=
  lowerAfter_of_ascii h

theorem isPlainIdent_map_toLower {t : Text} (h : isPlainIdent t) :
    isPlainIdent (t.map Char.toLower) := by
  have hbegins : ∀ {c : Char}, (isLetter c || c = '_') →
      (isLetter c.toLower || c.toLower = '_') ∧ c.toLower ≠ '-' := fun {c} hc =>
    forall_ascii (fun c => (isLetter c || c = '_') →
      (isLetter c.toLower || c.toLower = '_') ∧ c.toLower ≠ '-') (by decide)
      (ascii_of_isPlainNameChar (isPlainNameChar_of_begins hc)) hc
  have hall : ∀ {rest : Text}, rest.all isPlainNameChar →
      (rest.map Char.toLower).all isPlainNameChar := by
    intro rest hrest
    simp only [List.all_map, List.all_eq_true, Function.comp_apply] at hrest ⊢
    intro c hc
    exact forall_ascii (fun c => isPlainNameChar c → isPlainNameChar c.toLower)
      (by decide) (ascii_of_isPlainNameChar (hrest c hc)) (hrest c hc)
  rcases isPlainIdent_cases h with ⟨c, rest, rfl, hc, hrest⟩ | ⟨c, rest, rfl, hc, hrest⟩
  · obtain ⟨hc', hne⟩ := hbegins hc
    rw [List.map_cons, isPlainIdent]
    · simp only [hc', hall hrest, Bool.and_self]
    · rintro c' rest' hcons -
      exact hne hcons
  · show ((isLetter c.toLower || c.toLower = '_') &&
      (rest.map Char.toLower).all isPlainNameChar)
    simp only [(hbegins hc).1, hall hrest, Bool.and_self]

/-- An identifier in plain characters stays one. -/
theorem isPlainIdent_lower {t : Text} (h : isPlainIdent t) : isPlainIdent (lower t) := by
  rw [lower_of_ascii (ascii_of_isPlainIdent h)]
  exact isPlainIdent_map_toLower h

/-! ## Lower case, a second time -/

/-- An ASCII character that lower case leads to is lowered. -/
theorem isLowered_of_lowersTo {c d : Char} (h : LowersTo c d) (hd : d.toNat < 0x80) :
    IsLowered d := by
  refine isLowered_of_ascii hd ?_
  rcases ascii_cases_of_lowersTo h hd with ⟨hc, rfl⟩ | ⟨-, rfl⟩ | ⟨-, rfl⟩
  · exact forall_ascii (fun c => c.toLower.toLower = c.toLower) (by decide) hc
  · rfl
  · rfl

/-- A character in ASCII or a digit that lower case leads to stays as it is. -/
theorem isLowered_of_mem_lower {d : Char} {t : Text} (hd : d ∈ lower t)
    (h : d.toNat < 0x80 ∨ isDigit d) : IsLowered d := by
  rcases h with hascii | hdigit
  · obtain ⟨c, -, hcd⟩ := exists_of_mem_lower hd
    exact isLowered_of_lowersTo hcd hascii
  · exact isLowered_of_isDigit hdigit

/-- A text in ASCII and digits that lower case leads to stays as it is. -/
theorem lower_lower_of_ascii_or_isDigit {t : Text}
    (h : ∀ c ∈ lower t, c.toNat < 0x80 ∨ isDigit c) : lower (lower t) = lower t :=
  lower_eq_self fun d hd => isLowered_of_mem_lower hd (h d hd)

/-- Lower case never leads to the Kelvin sign. -/
theorem not_lowersTo_kelvin (c : Char) : ¬ LowersTo c '\u212a' := by
  rintro (h | ⟨-, h | h⟩)
  · rcases ascii_or_foreign c with hc | hc
    · rw [lowerChar, if_pos hc, List.mem_singleton] at h
      have hlow := forall_ascii (fun c => c.toLower.toNat < 0x80) (by decide) hc
      rw [← h] at hlow
      exact absurd hlow (by decide)
    · rcases lowerChar_foreign hc with heq | ⟨rfl, heq⟩ | ⟨rfl, heq⟩ |
        ⟨d, r, heq, -, hr, hfirst, hlast, himage⟩
      · rw [heq, List.mem_singleton] at h
        rw [← h] at heq
        exact absurd heq (by decide)
      · rw [heq] at h
        exact absurd h (by decide)
      · rw [heq] at h
        exact absurd h (by decide)
      · rw [heq, List.mem_singleton] at h
        have := caseRuns_kelvin r hr
        rw [← h, show Char.toNat '\u212a' = 0x212a from rfl] at himage
        omega
  · exact absurd h (by decide)
  · exact absurd h (by decide)

/-- What becomes ASCII the second time was so the first time. -/
theorem lower_lower_of_ascii {t : Text} (h : ∀ c ∈ lower (lower t), c.toNat < 0x80) :
    lower (lower t) = lower t := by
  refine lower_eq_self fun d hd => ?_
  obtain ⟨c, -, hcd⟩ := exists_of_mem_lower hd
  obtain ⟨e, he, hde⟩ := exists_mem_lower hd
  rcases ascii_cases_of_lowersTo hde (h e he) with ⟨hascii, -⟩ | ⟨rfl, -⟩ | ⟨rfl, -⟩
  · exact isLowered_of_lowersTo hcd hascii
  · exact absurd hcd (not_lowersTo_kelvin c)
  · -- the dotted capital leaves its dot behind, outside ASCII
    have hdot : '̇' ∈ lower (lower t) := mem_lower hd (by decide) (by decide)
    exact absurd (h _ hdot) (by decide)

end CssGuard.Text
