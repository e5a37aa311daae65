import CssGuard.Proofs.Value.Forms
import Mathlib.Algebra.Field.Rat

/-!
# Numbers and their values

A number in decimal notation, given by its parts: a sign, digits before and after the
point, and a power of ten. The digits are numbers below ten, so that the value can be read
off them. What can be written so is what the recognizer of numbers accepts, where digits
are those of ASCII.

- `Exponent`, `Decimal`: the parts of a number
- `Decimal.value`: the number, exactly
- `NumberState.step_cases`: what the recognizer does with one character
- `accepts_text`: what is written is accepted
- `exists_decimal_of_accepts`: what is accepted can be written
-/

namespace CssGuard

open Text

/-! ## Parts of numbers -/

/-- A sign in front of digits. -/
inductive Sign where
  | plus
  | minus
deriving DecidableEq

/-- A sign as it is written. -/
def Sign.text : Option Sign → Text
  | none => []
  | some .plus => ['+']
  | some .minus => ['-']

/-- What a sign stands for. -/
def Sign.factor : Option Sign → ℤ
  | some .minus => -1
  | _ => 1

/-- Digits as they are written. -/
def digitsText (ds : List (Fin 10)) : Text :=
  ds.map fun d : Fin 10 => Nat.digitChar d

/-- The number that digits stand for. -/
def digitsValue (ds : List (Fin 10)) : ℕ :=
  ds.foldl (fun (n : ℕ) (d : Fin 10) => 10 * n + d) 0

/-- A power of ten. -/
structure Exponent where
  sign : Option Sign
  digits : List (Fin 10)
  digits_ne_nil : digits ≠ []
deriving DecidableEq

/-- A power of ten as it is written, if there is one. -/
def Exponent.text : Option Exponent → Text
  | none => []
  | some e => 'e' :: Sign.text e.sign ++ digitsText e.digits

/-- The power that an exponent stands for. -/
def Exponent.value : Option Exponent → ℤ
  | none => 0
  | some e => Sign.factor e.sign * digitsValue e.digits

/-- A number: a sign, digits before and after the point, and a power of ten. -/
structure Decimal where
  sign : Option Sign
  whole : List (Fin 10)
  fraction : List (Fin 10)
  exponent : Option Exponent
  digits_ne_nil : whole ≠ [] ∨ fraction ≠ []
deriving DecidableEq

namespace Decimal

/-- The digits after the point as they are written; without them there is no point. -/
def fractionText : List (Fin 10) → Text
  | [] => []
  | d :: ds => '.' :: digitsText (d :: ds)

/-- The number without its sign as it is written. -/
def body (d : Decimal) : Text :=
  digitsText d.whole ++ (fractionText d.fraction ++ Exponent.text d.exponent)

/-- The number as it is written. -/
def text (d : Decimal) : Text :=
  Sign.text d.sign ++ d.body

/-- The number itself: all its digits, less as many places as stand after the
point, times a power of ten. -/
def value (d : Decimal) : ℚ :=
  Sign.factor d.sign * (digitsValue (d.whole ++ d.fraction) / 10 ^ d.fraction.length) *
    10 ^ Exponent.value d.exponent

end Decimal

/-! ## Digits -/

theorem isDecimal_digitChar : ∀ d : Fin 10, isDecimal (Nat.digitChar d) := by
  decide

theorem isPlainDigit_digitChar : ∀ d : Fin 10, isPlainDigit (Nat.digitChar d) := by
  decide

theorem exists_digitChar {c : Char} (h : isPlainDigit c) :
    ∃ d : Fin 10, Nat.digitChar d = c := by
  have hascii : c.toNat < 0x80 := ascii_of_isPlainNameChar (by simp [isPlainNameChar, h])
  exact forall_ascii (fun c => isPlainDigit c → ∃ d : Fin 10, Nat.digitChar d = c)
    (by decide) hascii h

theorem digitsText_cons (d : Fin 10) (ds : List (Fin 10)) :
    digitsText (d :: ds) = Nat.digitChar d :: digitsText ds :=
  rfl

theorem exists_leading_digits (w : Text) :
    ∃ ds rest, w = digitsText ds ++ rest ∧ ∀ c ∈ rest.head?, ¬ isPlainDigit c := by
  induction w with
  | nil => exact ⟨[], [], rfl, by simp⟩
  | cons c w ih =>
    by_cases hc : isPlainDigit c
    · obtain ⟨d, rfl⟩ := exists_digitChar hc
      obtain ⟨ds, rest, rfl, hrest⟩ := ih
      exact ⟨d :: ds, rest, rfl, hrest⟩
    · exact ⟨[], c :: w, rfl, by simpa using hc⟩

/-- All digits of the text are the ten digits of ASCII. -/
def HasPlainDigits (t : Text) : Prop :=
  ∀ c ∈ t, isDecimal c → isPlainDigit c

theorem HasPlainDigits.mono {t w : Text} (h : HasPlainDigits t) (hw : w ⊆ t) :
    HasPlainDigits w :=
  fun c hc => h c (hw hc)

/-! ## What the recognizer accepts -/

namespace NumberState

variable {s s' : NumberState} {c : Char} {w : Text}

/-- From the state, the text leads to the end of a number. -/
def Completes (s : NumberState) (w : Text) : Prop :=
  ∃ s', smallNumber.run s w = some s' ∧ smallNumber.final s'

theorem completes_nil : s.Completes [] ↔ smallNumber.final s := by
  constructor
  · rintro ⟨s', hrun, hfinal⟩
    cases hrun
    exact hfinal
  · exact fun hfinal => ⟨s, rfl, hfinal⟩

theorem completes_cons :
    s.Completes (c :: w) ↔ ∃ s₁, smallNumber.step s c = some s₁ ∧ s₁.Completes w := by
  constructor
  · rintro ⟨s', hrun, hfinal⟩
    obtain ⟨s₁, hstep, hrest⟩ := Option.bind_eq_some_iff.mp hrun
    exact ⟨s₁, hstep, s', hrest, hfinal⟩
  · rintro ⟨s₁, hstep, s', hrest, hfinal⟩
    exact ⟨s', Option.bind_eq_some_iff.mpr ⟨s₁, hstep, hrest⟩, hfinal⟩

theorem step_cases (h : smallNumber.step s c = some s') :
    (isDecimal c ∧ s' = s.afterDigit) ∨
    (c = '.' ∧ ((s = .start ∨ s = .sign) ∧ s' = .point ∨ s = .whole ∧ s' = .wholePoint)) ∨
    ((c = '+' ∨ c = '-') ∧ (s = .start ∧ s' = .sign ∨ s = .exponentMark ∧
      s' = .exponentSign)) ∨
    (c = 'e' ∧ (s = .whole ∨ s = .fraction) ∧ s' = .exponentMark) := by
  have hcases := cases_of_step h
  rwa [decide_eq_true_iff] at hcases

theorem step_digitChar (s : NumberState) (d : Fin 10) :
    smallNumber.step s (Nat.digitChar d) = some s.afterDigit := by
  cases s <;> simp [smallNumber, numberWith, afterDigit, isDecimal_digitChar d]

theorem completes_digitChar {d : Fin 10} :
    s.Completes (Nat.digitChar d :: w) ↔ s.afterDigit.Completes w := by
  rw [completes_cons, step_digitChar]
  simp

/-- Digits after a digit change nothing. -/
theorem completes_digitsText (hs : s.afterDigit = s) (ds : List (Fin 10)) :
    s.Completes (digitsText ds ++ w) ↔ s.Completes w := by
  induction ds with
  | nil => exact Iff.rfl
  | cons d ds ih =>
    rw [digitsText_cons, List.cons_append, completes_digitChar, hs]
    exact ih

/-! ### The parts of what is accepted -/

/-- After a digit there are digits, and then the text ends or another character comes. -/
theorem Completes.exists_digits (h : s.Completes w) (hs : s.afterDigit = s)
    (hplain : HasPlainDigits w) :
    ∃ ds rest, w = digitsText ds ++ rest ∧ (rest = [] ∨ ∃ c more s₁, rest = c :: more ∧
      HasPlainDigits more ∧ ¬ isDecimal c ∧ smallNumber.step s c = some s₁ ∧
      s₁.Completes more) := by
  obtain ⟨ds, rest, rfl, hhead⟩ := exists_leading_digits w
  refine ⟨ds, rest, rfl, ?_⟩
  cases rest with
  | nil => exact .inl rfl
  | cons c more =>
    obtain ⟨s₁, hstep, hmore⟩ := completes_cons.mp ((completes_digitsText hs ds).mp h)
    exact .inr ⟨c, more, s₁, rfl, hplain.mono (by simp),
      fun hc => hhead c rfl (hplain c (by simp) hc), hstep, hmore⟩

/-- Where a number cannot end and only a digit can come, there is one. -/
theorem Completes.exists_digit (h : s.Completes w)
    (hs : s = .point ∨ s = .wholePoint ∨ s = .exponentSign) (hplain : HasPlainDigits w) :
    ∃ (d : Fin 10) (more : Text), w = Nat.digitChar d :: more ∧ HasPlainDigits more ∧
      s.afterDigit.Completes more := by
  cases w with
  | nil =>
    have hfinal := completes_nil.mp h
    rcases hs with rfl | rfl | rfl <;> cases hfinal
  | cons c more =>
    obtain ⟨s₁, hstep, hmore⟩ := completes_cons.mp h
    rcases step_cases hstep with ⟨hc, rfl⟩ | ⟨-, hpoint⟩ | ⟨-, hsign⟩ | ⟨-, hmark⟩
    · obtain ⟨d, rfl⟩ := exists_digitChar (hplain c (List.mem_cons_self ..) hc)
      exact ⟨d, more, rfl, hplain.mono (List.subset_cons_self ..), hmore⟩
    · grind
    · grind
    · grind

theorem Completes.exists_exponentDigits (h : exponent.Completes w)
    (hplain : HasPlainDigits w) : ∃ ds, w = digitsText ds := by
  obtain ⟨ds, rest, rfl, rfl | ⟨c, more, s₁, -, -, hc, hstep, -⟩⟩ :=
    h.exists_digits rfl hplain
  · exact ⟨ds, List.append_nil _⟩
  · have := step_cases hstep
    grind

/-- What follows the mark of an exponent. -/
theorem Completes.exists_exponent (h : exponentMark.Completes w)
    (hplain : HasPlainDigits w) : ∃ e, 'e' :: w = Exponent.text (some e) := by
  cases w with
  | nil => cases completes_nil.mp h
  | cons c more =>
    have hplain' : HasPlainDigits more := hplain.mono (List.subset_cons_self ..)
    obtain ⟨s₁, hstep, hmore⟩ := completes_cons.mp h
    rcases step_cases hstep with ⟨hc, rfl⟩ | ⟨-, hpoint⟩ | ⟨hc, hsign⟩ | ⟨-, hmark, -⟩
    · obtain ⟨d, rfl⟩ := exists_digitChar (hplain c (List.mem_cons_self ..) hc)
      obtain ⟨ds, rfl⟩ := hmore.exists_exponentDigits hplain'
      exact ⟨⟨none, d :: ds, List.cons_ne_nil _ _⟩, rfl⟩
    · grind
    · obtain rfl : s₁ = exponentSign := by grind
      obtain ⟨d, more, rfl, hplain'', hlast⟩ :=
        hmore.exists_digit (.inr (.inr rfl)) hplain'
      obtain ⟨ds, rfl⟩ := hlast.exists_exponentDigits hplain''
      rcases hc with rfl | rfl
      · exact ⟨⟨some .plus, d :: ds, List.cons_ne_nil _ _⟩, rfl⟩
      · exact ⟨⟨some .minus, d :: ds, List.cons_ne_nil _ _⟩, rfl⟩
    · grind

/-- What follows a point. -/
theorem Completes.exists_fraction (h : s.Completes w) (hs : s = .point ∨ s = .wholePoint)
    (hplain : HasPlainDigits w) :
    ∃ fs e, fs ≠ [] ∧ '.' :: w = Decimal.fractionText fs ++ Exponent.text e := by
  obtain ⟨d, more, rfl, hplain', hmore⟩ := h.exists_digit (hs.imp_right .inl) hplain
  have hfraction : s.afterDigit = .fraction := by
    rcases hs with rfl | rfl <;> rfl
  rw [hfraction] at hmore
  obtain ⟨ds, rest, rfl, rfl | ⟨c, last, s₁, rfl, hplain'', hc, hstep, hlast⟩⟩ :=
    hmore.exists_digits rfl hplain'
  · exact ⟨d :: ds, none, List.cons_ne_nil _ _, rfl⟩
  · rcases step_cases hstep with ⟨hc', -⟩ | ⟨-, hpoint⟩ | ⟨-, hsign⟩ | ⟨rfl, -, rfl⟩
    · exact absurd hc' hc
    · grind
    · grind
    · obtain ⟨e, he⟩ := hlast.exists_exponent hplain''
      exact ⟨d :: ds, some e, List.cons_ne_nil _ _, by rw [he]; rfl⟩

/-- What follows the first digit. -/
theorem Completes.exists_whole (h : whole.Completes w) (hplain : HasPlainDigits w) :
    ∃ ds fs e, w = digitsText ds ++ (Decimal.fractionText fs ++ Exponent.text e) := by
  obtain ⟨ds, rest, rfl, rfl | ⟨c, more, s₁, rfl, hplain', hc, hstep, hmore⟩⟩ :=
    h.exists_digits rfl hplain
  · exact ⟨ds, [], none, rfl⟩
  · rcases step_cases hstep with ⟨hc', -⟩ | ⟨rfl, hpoint⟩ | ⟨-, hsign⟩ | ⟨rfl, -, rfl⟩
    · exact absurd hc' hc
    · obtain rfl : s₁ = wholePoint := by grind
      obtain ⟨fs, e, -, heq⟩ := hmore.exists_fraction (.inr rfl) hplain'
      exact ⟨ds, fs, e, congrArg _ heq⟩
    · grind
    · obtain ⟨e, he⟩ := hmore.exists_exponent hplain'
      exact ⟨ds, [], some e, congrArg _ he⟩

/-- A number without a sign, or a sign and what follows it. -/
theorem Completes.exists_body (h : s.Completes w) (hs : s = .start ∨ s = .sign)
    (hplain : HasPlainDigits w) :
    (∃ d : Decimal, d.sign = none ∧ d.body = w) ∨ (s = .start ∧ ∃ mark more,
      w = Sign.text (some mark) ++ more ∧ HasPlainDigits more ∧ sign.Completes more) := by
  cases w with
  | nil =>
    have hfinal := completes_nil.mp h
    rcases hs with rfl | rfl <;> cases hfinal
  | cons c more =>
    have hplain' : HasPlainDigits more := hplain.mono (List.subset_cons_self ..)
    obtain ⟨s₁, hstep, hmore⟩ := completes_cons.mp h
    rcases step_cases hstep with ⟨hc, rfl⟩ | ⟨rfl, hpoint⟩ | ⟨hc, hsign⟩ | ⟨-, hmark, -⟩
    · have hwhole : s.afterDigit = .whole := by
        rcases hs with rfl | rfl <;> rfl
      rw [hwhole] at hmore
      obtain ⟨d, rfl⟩ := exists_digitChar (hplain c (List.mem_cons_self ..) hc)
      obtain ⟨ds, fs, e, rfl⟩ := hmore.exists_whole hplain'
      exact .inl ⟨⟨none, d :: ds, fs, e, .inl (List.cons_ne_nil _ _)⟩, rfl, rfl⟩
    · obtain rfl : s₁ = point := by grind
      obtain ⟨fs, e, hne, heq⟩ := hmore.exists_fraction (.inl rfl) hplain'
      exact .inl ⟨⟨none, [], fs, e, .inr hne⟩, rfl, heq.symm⟩
    · obtain ⟨rfl, rfl⟩ : s = start ∧ s₁ = sign := by grind
      rcases hc with rfl | rfl
      · exact .inr ⟨rfl, .plus, more, rfl, hplain', hmore⟩
      · exact .inr ⟨rfl, .minus, more, rfl, hplain', hmore⟩
    · grind

/-! ### What is written is accepted -/

theorem completes_signText {s₁ : NumberState} (hplus : smallNumber.step s '+' = some s₁)
    (hminus : smallNumber.step s '-' = some s₁) (h : s.Completes w) (h₁ : s₁.Completes w)
    (mark : Option Sign) : s.Completes (Sign.text mark ++ w) := by
  rcases mark with _ | _ | _
  · exact h
  · exact completes_cons.mpr ⟨s₁, hplus, h₁⟩
  · exact completes_cons.mpr ⟨s₁, hminus, h₁⟩

theorem completes_exponentText (hs : s = .whole ∨ s = .fraction) (e : Option Exponent) :
    s.Completes (Exponent.text e) := by
  cases e with
  | none =>
    refine completes_nil.mpr ?_
    rcases hs with rfl | rfl <;> rfl
  | some e =>
    obtain ⟨mark, digits, hne⟩ := e
    obtain ⟨d, ds, rfl⟩ := List.exists_cons_of_ne_nil hne
    have hdigits : ∀ {s : NumberState}, s.afterDigit = .exponent →
        s.Completes (digitsText (d :: ds)) := by
      intro s hs
      rw [digitsText_cons, completes_digitChar, hs, ← List.append_nil (digitsText ds),
        completes_digitsText rfl]
      exact completes_nil.mpr rfl
    refine completes_cons.mpr ⟨.exponentMark, by rcases hs with rfl | rfl <;> rfl, ?_⟩
    exact completes_signText rfl rfl (hdigits rfl) (hdigits rfl) mark

theorem completes_fractionText (hs : s = .start ∨ s = .sign ∨ s = .whole)
    {fs : List (Fin 10)} (hne : fs ≠ []) (e : Option Exponent) :
    s.Completes (Decimal.fractionText fs ++ Exponent.text e) := by
  obtain ⟨d, ds, rfl⟩ := List.exists_cons_of_ne_nil hne
  have hdigits : ∀ {s : NumberState}, s.afterDigit = .fraction →
      s.Completes (digitsText (d :: ds) ++ Exponent.text e) := by
    intro s hs
    rw [digitsText_cons, List.cons_append, completes_digitChar, hs,
      completes_digitsText rfl]
    exact completes_exponentText (.inr rfl) e
  rcases hs with rfl | rfl | rfl
  · exact completes_cons.mpr ⟨.point, rfl, hdigits rfl⟩
  · exact completes_cons.mpr ⟨.point, rfl, hdigits rfl⟩
  · exact completes_cons.mpr ⟨.wholePoint, rfl, hdigits rfl⟩

theorem completes_body (hs : s = .start ∨ s = .sign) (d : Decimal) :
    s.Completes d.body := by
  obtain ⟨mark, digits, fs, e, hne⟩ := d
  cases digits with
  | nil =>
    exact completes_fractionText (hs.imp_right .inl) (hne.resolve_left fun h => h rfl) e
  | cons d ds =>
    have hwhole : s.afterDigit = .whole := by
      rcases hs with rfl | rfl <;> rfl
    rw [Decimal.body, digitsText_cons, List.cons_append, completes_digitChar, hwhole,
      completes_digitsText rfl]
    cases fs with
    | nil => exact completes_exponentText (.inl rfl) e
    | cons f fs => exact completes_fractionText (.inr (.inr rfl)) (List.cons_ne_nil _ _) e

end NumberState

/-- What is written is accepted. -/
theorem accepts_text (d : Decimal) : smallNumber.accepts d.text := by
  have hbody {s : NumberState} (hs : s = .start ∨ s = .sign) : s.Completes d.body :=
    NumberState.completes_body hs d
  exact (accepts_iff _ _).mpr
    (NumberState.completes_signText rfl rfl (hbody (.inl rfl)) (hbody (.inr rfl)) d.sign)

/-- What the recognizer of numbers accepts can be written, if its digits are plain. -/
theorem exists_decimal_of_accepts {w : Text} (h : smallNumber.accepts w)
    (hplain : HasPlainDigits w) : ∃ d : Decimal, d.text = w := by
  rcases NumberState.Completes.exists_body ((accepts_iff _ _).mp h) (.inl rfl) hplain with
    ⟨d, hsign, rfl⟩ | ⟨-, mark, more, rfl, hplain', hmore⟩
  · exact ⟨d, by rw [Decimal.text, hsign]; rfl⟩
  · rcases hmore.exists_body (.inr rfl) hplain' with ⟨d, -, rfl⟩ | ⟨hstart, -⟩
    · exact ⟨{ d with sign := some mark }, rfl⟩
    · cases hstart

end CssGuard
