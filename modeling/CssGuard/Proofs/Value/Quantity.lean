import CssGuard.Proofs.Value.Decimal
import Mathlib.Tactic.NormNum

/-!
# Quantities and their normal form

A quantity is a number and a unit. A text is that of one quantity at most, since each part
ends where the next one begins: digits end at what is no digit, and the letter of an
exponent is one only before digits. So the value of a text is the value of its quantity,
and the normal form of a quantity can be compared with it.

- `Quantity.text_injective`, `Quantity.IsWritten.unique`: a text is that of one quantity
- `exists_isWritten`, `Quantity.IsWritten.isQuantity`: the texts of quantities are those
  that the recognizer accepts, where digits are those of ASCII
- `Decimal.value_normal`: a number in normal form has the same value
- `normalQuantity?_of_minus`, `normalQuantity?_of_not_minus`: what the normal form is
-/

namespace CssGuard

open Text
open scoped Text.ByCharacter

/-- A number with a unit. -/
structure Quantity where
  number : Decimal
  unit : Text
  isSmallUnit_unit : isSmallUnit unit
deriving DecidableEq

/-- The quantity as it is written. -/
def Quantity.text (q : Quantity) : Text :=
  q.number.text ++ q.unit

/-- The text is that of the quantity, maybe with a newline after it. -/
def Quantity.IsWritten (q : Quantity) (t : Text) : Prop :=
  IsMaybeLine q.text t

/-! ## Characters of quantities -/

/-- A character of a quantity. -/
def isQuantityChar (c : Char) : Bool :=
  isPlainDigit c || isSmall c || c ∈ ['+', '-', '.', '%']

theorem isQuantityChar_of_mem_digitsText {ds : List (Fin 10)} :
    ∀ c ∈ digitsText ds, isQuantityChar c := by
  intro c hc
  obtain ⟨d, -, rfl⟩ := List.mem_map.mp hc
  simp [isQuantityChar, isPlainDigit_digitChar d]

theorem isQuantityChar_of_mem_signText {mark : Option Sign} :
    ∀ c ∈ Sign.text mark, isQuantityChar c := by
  rcases mark with _ | _ | _ <;> decide

theorem isQuantityChar_of_mem_exponentText {e : Option Exponent} :
    ∀ c ∈ Exponent.text e, isQuantityChar c := by
  cases e with
  | none => exact fun c hc => absurd hc List.not_mem_nil
  | some e =>
    refine List.forall_mem_cons.mpr ⟨by decide, List.forall_mem_append.mpr ⟨?_, ?_⟩⟩
    · exact isQuantityChar_of_mem_signText
    · exact isQuantityChar_of_mem_digitsText

theorem isQuantityChar_of_mem_fractionText {ds : List (Fin 10)} :
    ∀ c ∈ Decimal.fractionText ds, isQuantityChar c := by
  cases ds with
  | nil => exact fun c hc => absurd hc List.not_mem_nil
  | cons d ds =>
    exact List.forall_mem_cons.mpr ⟨by decide, isQuantityChar_of_mem_digitsText⟩

theorem isSmallUnit_cases {unit : Text} (h : isSmallUnit unit) :
    unit = ['%'] ∨ ∀ c ∈ unit, isSmall c :=
  (Bool.or_eq_true_iff.mp h).imp of_decide_eq_true List.all_eq_true.mp

theorem isQuantityChar_of_mem_unit {unit : Text} (h : isSmallUnit unit) :
    ∀ c ∈ unit, isQuantityChar c := by
  rcases isSmallUnit_cases h with rfl | hsmall
  · decide
  · intro c hc
    simp [isQuantityChar, hsmall c hc]

theorem Quantity.isQuantityChar_of_mem (q : Quantity) :
    ∀ c ∈ q.text, isQuantityChar c := by
  simp only [Quantity.text, Decimal.text, Decimal.body, List.forall_mem_append]
  exact ⟨⟨isQuantityChar_of_mem_signText, isQuantityChar_of_mem_digitsText,
    isQuantityChar_of_mem_fractionText, isQuantityChar_of_mem_exponentText⟩,
    isQuantityChar_of_mem_unit q.isSmallUnit_unit⟩

theorem Quantity.newline_not_mem (q : Quantity) : '\n' ∉ q.text :=
  fun h => absurd (q.isQuantityChar_of_mem _ h) (by decide)

theorem Quantity.capital_not_mem (q : Quantity) : 'E' ∉ q.text :=
  fun h => absurd (q.isQuantityChar_of_mem _ h) (by decide)

/-! ## A text is that of one quantity -/

section Reading

variable {r r' : Text}

/-- No sign. -/
def notSign (c : Char) : Bool :=
  c ∉ ['+', '-']

/-- No digit. -/
def notDigit (c : Char) : Bool :=
  !isPlainDigit c

/-- Neither a digit nor a point. -/
def notNumeric (c : Char) : Bool :=
  notDigit c && c ≠ '.'

theorem notDigit_of_notNumeric (c : Char) (h : notNumeric c) : notDigit c :=
  (Bool.and_eq_true_iff.mp h).1

theorem not_starts_digit {d : Fin 10} (h : Starts notDigit (Nat.digitChar d :: r)) :
    False := by
  have hd := starts_cons.mp h
  simp [notDigit, isPlainDigit_digitChar d] at hd

theorem digitChar_injective :
    ∀ d d' : Fin 10, Nat.digitChar d = Nat.digitChar d' → d = d' := by
  decide

theorem digitsText_append_injective {ds ds' : List (Fin 10)} (hr : Starts notDigit r)
    (hr' : Starts notDigit r') (h : digitsText ds ++ r = digitsText ds' ++ r') :
    ds = ds' ∧ r = r' := by
  induction ds generalizing ds' with
  | nil =>
    cases ds' with
    | nil => exact ⟨rfl, h⟩
    | cons d' ds' =>
      obtain rfl : r = Nat.digitChar d' :: (digitsText ds' ++ r') := h
      exact (not_starts_digit hr).elim
  | cons d ds ih =>
    cases ds' with
    | nil =>
      obtain rfl : Nat.digitChar d :: (digitsText ds ++ r) = r' := h
      exact (not_starts_digit hr').elim
    | cons d' ds' =>
      obtain ⟨hd, hds⟩ := List.cons.inj h
      obtain ⟨rfl, hrest⟩ := ih hds
      exact ⟨by rw [digitChar_injective d d' hd], hrest⟩

theorem signText_append_injective {mark mark' : Option Sign} (hr : Starts notSign r)
    (hr' : Starts notSign r') (h : Sign.text mark ++ r = Sign.text mark' ++ r') :
    mark = mark' ∧ r = r' := by
  have hsign : ∀ {mark : Sign} {w : Text},
      ¬ Starts notSign (Sign.text (some mark) ++ w) := by
    rintro (_ | _) w hw
    · exact absurd (starts_cons.mp hw) (by decide)
    · exact absurd (starts_cons.mp hw) (by decide)
  cases mark with
  | none =>
    cases mark' with
    | none => exact ⟨rfl, h⟩
    | some mark' =>
      obtain rfl : r = Sign.text (some mark') ++ r' := h
      exact (hsign hr).elim
  | some mark =>
    cases mark' with
    | none =>
      obtain rfl : Sign.text (some mark) ++ r = r' := h
      exact (hsign hr').elim
    | some mark' =>
      cases mark <;> cases mark' <;> simp_all [Sign.text]

theorem fractionText_append_injective {ds ds' : List (Fin 10)} (hr : Starts notNumeric r)
    (hr' : Starts notNumeric r')
    (h : Decimal.fractionText ds ++ r = Decimal.fractionText ds' ++ r') :
    ds = ds' ∧ r = r' := by
  have hpoint : ∀ {w : Text}, ¬ Starts notNumeric ('.' :: w) :=
    fun hw => absurd (starts_cons.mp hw) (by decide)
  cases ds with
  | nil =>
    cases ds' with
    | nil => exact ⟨rfl, h⟩
    | cons d' ds' =>
      obtain rfl : r = '.' :: (digitsText (d' :: ds') ++ r') := h
      exact (hpoint hr).elim
  | cons d ds =>
    cases ds' with
    | nil =>
      obtain rfl : '.' :: (digitsText (d :: ds) ++ r) = r' := h
      exact (hpoint hr').elim
    | cons d' ds' =>
      exact digitsText_append_injective (hr.mono notDigit_of_notNumeric)
        (hr'.mono notDigit_of_notNumeric) (List.cons.inj h).2

theorem digitChar_not_mem_unit {unit : Text} (h : isSmallUnit unit) (d : Fin 10) :
    Nat.digitChar d ∉ unit := by
  intro hmem
  have hclass : ∀ d : Fin 10, ¬ isSmall (Nat.digitChar d) ∧ Nat.digitChar d ≠ '%' := by
    decide
  rcases isSmallUnit_cases h with rfl | hsmall
  · exact (hclass d).2 (List.mem_singleton.mp hmem)
  · exact (hclass d).1 (hsmall _ hmem)

/-- A unit may begin with the letter of exponents, but has no digits after it. -/
theorem Exponent.text_append_ne_unit (e : Exponent) {unit : Text} (h : isSmallUnit unit) :
    Exponent.text (some e) ++ r ≠ unit := by
  rintro rfl
  obtain ⟨d, hd⟩ := List.exists_mem_of_ne_nil _ e.digits_ne_nil
  refine digitChar_not_mem_unit h d (List.mem_append_left _ ?_)
  exact List.mem_cons_of_mem _ (List.mem_append_right _ (List.mem_map_of_mem hd))

theorem starts_unit {unit : Text} (h : isSmallUnit unit) : Starts notNumeric unit := by
  intro c hc
  have hmem := List.mem_of_mem_head? hc
  rcases isSmallUnit_cases h with rfl | hsmall
  · rw [List.mem_singleton.mp hmem]
    decide
  · exact forall_ascii (fun c => isSmall c → notNumeric c) (by decide)
      (ascii_of_isSmall (hsmall c hmem)) (hsmall c hmem)

theorem starts_exponentText {unit : Text} (e : Option Exponent) (h : isSmallUnit unit) :
    Starts notNumeric (Exponent.text e ++ unit) := by
  cases e with
  | none => exact starts_unit h
  | some e => exact starts_cons.mpr (by decide)

theorem starts_fractionText (ds : List (Fin 10)) (hr : Starts notNumeric r) :
    Starts notDigit (Decimal.fractionText ds ++ r) := by
  cases ds with
  | nil => exact hr.mono notDigit_of_notNumeric
  | cons d ds => exact starts_cons.mpr (by decide)

theorem starts_digitsText {ds : List (Fin 10)} (h : ds ≠ []) :
    Starts notSign (digitsText ds ++ r) := by
  obtain ⟨d, ds, rfl⟩ := List.exists_cons_of_ne_nil h
  exact starts_cons.mpr ((by decide : ∀ d : Fin 10, notSign (Nat.digitChar d)) d)

/-- After its sign, a number begins with a digit or a point. -/
theorem Decimal.starts_body (d : Decimal) : Starts notSign (d.body ++ r) := by
  obtain ⟨mark, whole, fraction, e, hne⟩ := d
  cases whole with
  | cons d ds =>
    rw [Decimal.body, List.append_assoc]
    exact starts_digitsText (List.cons_ne_nil _ _)
  | nil =>
    obtain ⟨d, ds, rfl⟩ := List.exists_cons_of_ne_nil (hne.resolve_left fun h => h rfl)
    exact starts_cons.mpr (by decide)

theorem exponentText_append_injective {e e' : Option Exponent} (hr : isSmallUnit r)
    (hr' : isSmallUnit r') (h : Exponent.text e ++ r = Exponent.text e' ++ r') :
    e = e' ∧ r = r' := by
  cases e with
  | none =>
    cases e' with
    | none => exact ⟨rfl, h⟩
    | some e' => exact (e'.text_append_ne_unit hr h.symm).elim
  | some e =>
    cases e' with
    | none => exact (e.text_append_ne_unit hr' h).elim
    | some e' =>
      obtain ⟨mark, ds, hne⟩ := e
      obtain ⟨mark', ds', hne'⟩ := e'
      have htail := (List.cons.inj h).2
      simp only [List.append_eq, List.append_assoc] at htail
      obtain ⟨rfl, hdigits⟩ :=
        signText_append_injective (starts_digitsText hne) (starts_digitsText hne') htail
      obtain ⟨rfl, hunit⟩ := digitsText_append_injective
        ((starts_unit hr).mono notDigit_of_notNumeric)
        ((starts_unit hr').mono notDigit_of_notNumeric) hdigits
      exact ⟨rfl, hunit⟩

end Reading

/-- Two quantities with the same text are the same, part by part from the front. -/
theorem Quantity.text_injective {p q : Quantity} (h : p.text = q.text) : p = q := by
  obtain ⟨d, unit, hunit⟩ := p
  obtain ⟨d', unit', hunit'⟩ := q
  simp only [Quantity.text, Decimal.text, List.append_assoc] at h
  obtain ⟨hsign, hbody⟩ := signText_append_injective d.starts_body d'.starts_body h
  obtain ⟨mark, whole, fraction, e, hne⟩ := d
  obtain ⟨mark', whole', fraction', e', hne'⟩ := d'
  simp only [Decimal.body, List.append_assoc] at hbody
  -- what follows each part cannot belong to it, whether the next part is there or not
  have hexponent := starts_exponentText e hunit
  have hexponent' := starts_exponentText e' hunit'
  obtain ⟨rfl, hfraction⟩ :=
    digitsText_append_injective (starts_fractionText fraction hexponent)
      (starts_fractionText fraction' hexponent') hbody
  obtain ⟨rfl, hpower⟩ := fractionText_append_injective hexponent hexponent' hfraction
  obtain ⟨rfl, rfl⟩ := exponentText_append_injective hunit hunit' hpower
  cases hsign
  rfl

theorem Quantity.IsWritten.unique {p q : Quantity} {t : Text} (hp : p.IsWritten t)
    (hq : q.IsWritten t) : p = q := by
  -- a newline at the end belongs to neither quantity
  rcases hp with rfl | rfl
  · rcases hq with h | h
    · exact Quantity.text_injective h
    · exact (p.newline_not_mem (h ▸ List.mem_concat_self)).elim
  · rcases hq with h | h
    · exact (q.newline_not_mem (h ▸ List.mem_concat_self)).elim
    · exact Quantity.text_injective (List.append_cancel_right h)

/-! ## The texts of quantities -/

/-- A newline may follow a text that has none. -/
theorem IsMaybeLine.isLineOf {accepts : Text → Bool} {t q : Text}
    (hline : IsMaybeLine t q) (h : isLineOf accepts t) (hnewline : '\n' ∉ t) :
    isLineOf accepts q := by
  rcases hline with rfl | rfl
  · exact h
  · rcases cases_of_isLineOf h with haccepts | ⟨t', rfl, -⟩
    · simp [Text.isLineOf, haccepts]
    · exact absurd List.mem_concat_self hnewline

/-- What the recognizer accepts is the text of a quantity, if its digits are plain. -/
theorem exists_isWritten {t : Text} (h : isQuantity t) (hdigits : HasPlainDigits t) :
    ∃ q : Quantity, q.IsWritten t := by
  obtain ⟨w, ⟨number, unit, rfl, hnumber, hunit⟩, hline⟩ :=
    exists_of_isLineOf (P := fun w => ∃ number unit, w = number ++ unit ∧
      smallNumber.accepts number ∧ isSmallUnit unit) (fun w hw => by
        obtain ⟨⟨number, unit⟩, hlongest, hunit⟩ := (Option.any_eq_true _ _).mp hw
        exact ⟨number, unit, (smallNumber.append_of_longest? hlongest).symm,
          smallNumber.accepts_of_longest? hlongest, hunit⟩) h
  have hplain : HasPlainDigits number :=
    hdigits.mono fun c hc => hline.mem (List.mem_append_left _ hc)
  obtain ⟨d, rfl⟩ := exists_decimal_of_accepts hnumber hplain
  exact ⟨⟨d, unit, hunit⟩, hline⟩

/-- The text of a quantity is accepted. -/
theorem Quantity.IsWritten.isQuantity {q : Quantity} {t : Text} (h : q.IsWritten t) :
    isQuantity t := by
  have hnumeral : IsNumeral q.text := by
    refine ⟨q.number.text, q.unit, rfl, ?_, q.isSmallUnit_unit⟩
    exact accepts_numberWith_mono (fun c hc => by simp [of_decide_eq_true hc])
      (accepts_text q.number)
  exact IsMaybeLine.isLineOf h (isQuantity_of_isNumeral hnumeral q.capital_not_mem)
    q.newline_not_mem

/-! ## Normal forms -/

/-- The sign that is kept: a minus sign. -/
def Sign.normal : Option Sign → Option Sign
  | some .minus => some .minus
  | _ => none

theorem Sign.normal_of_ne {mark : Option Sign} (h : mark ≠ some .minus) :
    Sign.normal mark = none := by
  rcases mark with _ | _ | _
  · rfl
  · rfl
  · exact absurd rfl h

theorem Sign.factor_normal (mark : Option Sign) :
    Sign.factor (Sign.normal mark) = Sign.factor mark := by
  rcases mark with _ | _ | _ <;> rfl

namespace Decimal

/-- The number without a plus sign, and with a digit before its point. -/
def normal (d : Decimal) : Decimal :=
  { d with
    sign := Sign.normal d.sign
    whole := if d.whole = [] then [0] else d.whole
    digits_ne_nil := by
      left
      split
      · exact List.cons_ne_nil _ _
      · assumption }

/-- A zero in front of the digits changes nothing. -/
theorem value_normal (d : Decimal) : d.normal.value = d.value := by
  have hdigits : digitsValue (d.normal.whole ++ d.fraction) =
      digitsValue (d.whole ++ d.fraction) := by
    by_cases hwhole : d.whole = []
    · simp [normal, hwhole, digitsValue]
    · simp [normal, hwhole]
  unfold value
  rw [← Sign.factor_normal d.sign, ← hdigits]
  rfl

theorem normal_normal (d : Decimal) : d.normal.normal = d.normal := by
  obtain ⟨mark, whole, fraction, e, hne⟩ := d
  rcases mark with _ | _ | _ <;> cases whole <;> rfl

theorem leadZero_body (d : Decimal) (r : Text) :
    leadZero (d.body ++ r) = d.normal.body ++ r := by
  obtain ⟨mark, whole, fraction, e, hne⟩ := d
  cases whole with
  | nil =>
    obtain ⟨f, fs, rfl⟩ := List.exists_cons_of_ne_nil (hne.resolve_left fun h => h rfl)
    rfl
  | cons d ds =>
    refine leadZero_eq_self fun hpoint => ?_
    exact (by decide : ∀ d : Fin 10, Nat.digitChar d ≠ '.') d (Option.some.inj hpoint)

end Decimal

namespace Quantity

variable {q : Quantity} {e : Entry} {t last : Text}

/-- The quantity with its number in normal form. -/
def normal (q : Quantity) : Quantity :=
  { q with number := q.number.normal }

theorem normal_normal (q : Quantity) : q.normal.normal = q.normal :=
  congrArg (fun d => (⟨d, q.unit, q.isSmallUnit_unit⟩ : Quantity)) q.number.normal_normal

theorem isWritten_iff :
    q.IsWritten t ↔ ∃ last, (last = [] ∨ last = ['\n']) ∧
    t = q.text ++ last := by
  constructor
  · rintro (rfl | rfl)
    · exact ⟨[], .inl rfl, (List.append_nil _).symm⟩
    · exact ⟨_, .inr rfl, rfl⟩
  · rintro ⟨last, rfl | rfl, rfl⟩
    · exact .inl (List.append_nil _)
    · exact .inr rfl

theorem text_append (q : Quantity) (last : Text) :
    q.text ++ last = Sign.text q.number.sign ++ (q.number.body ++ (q.unit ++ last)) := by
  simp only [text, Decimal.text, List.append_assoc]

theorem text_normal_append (q : Quantity) (last : Text) :
    q.normal.text ++ last =
      Sign.text (Sign.normal q.number.sign) ++ leadZero (q.number.body ++
        (q.unit ++ last)) := by
  rw [text_append, Decimal.leadZero_body]
  rfl

/-- A text begins with a minus sign where its quantity does. -/
theorem head?_text_append :
    (q.text ++ last).head? = some '-' ↔ q.number.sign = some .minus := by
  rw [text_append]
  rcases q.number.sign with _ | _ | _
  · refine iff_of_false (fun hhead => ?_) nofun
    exact absurd (q.number.starts_body '-' hhead) (by decide)
  · exact iff_of_false nofun nofun
  · exact iff_of_true rfl rfl

/-- Where a quantity below zero is not permitted, it is replaced by zero. -/
theorem normalQuantity?_of_minus (hquantity : isQuantity (q.text ++ last))
    (hsign : q.number.sign = some .minus) :
    normalQuantity? e (q.text ++ last) =
      if e.allows .negativeQuantity then some (q.normal.text ++ last)
      else if e.allows .quantity then some ['0']
      else none := by
  unfold normalQuantity?
  rw [if_pos hquantity, text_append, text_normal_append, hsign]
  rfl

theorem normalQuantity?_of_not_minus (hquantity : isQuantity (q.text ++ last))
    (hsign : q.number.sign ≠ some .minus) :
    normalQuantity? e (q.text ++ last) =
      if e.allows .quantity then some (q.normal.text ++ last) else none := by
  unfold normalQuantity?
  rw [if_pos hquantity, text_append, text_normal_append, Sign.normal_of_ne hsign]
  rcases hmark : q.number.sign with _ | _ | _
  · -- no sign: what comes first is neither of the two signs that are told apart
    have hstarts := q.number.starts_body (r := q.unit ++ last)
    split
    · rename_i rest heq
      exact absurd (hstarts '+' (congrArg List.head? heq)) (by decide)
    · rename_i rest heq
      exact absurd (hstarts '-' (congrArg List.head? heq)) (by decide)
    · rfl
  · rfl
  · exact absurd hmark hsign

/-- A quantity is refused where its sign is not permitted; a minus
sign needs either permission. -/
theorem normalQuantity?_eq_none_iff (hquantity : isQuantity (q.text ++ last)) :
    normalQuantity? e (q.text ++ last) = none ↔
      ¬ (e.allows .quantity ∨ (q.text ++ last).head? = some '-' ∧
        e.allows .negativeQuantity) := by
  rw [head?_text_append]
  by_cases hsign : q.number.sign = some .minus
  · rw [normalQuantity?_of_minus hquantity hsign]
    cases e.allows .negativeQuantity <;> cases e.allows .quantity <;> simp [hsign]
  · rw [normalQuantity?_of_not_minus hquantity hsign]
    cases e.allows .quantity <;> simp [hsign]

/-- The quantity stays what it is in normal form. -/
def IsPermitted (q : Quantity) (e : Entry) : Prop :=
  if q.number.sign = some .minus then e.allows .negativeQuantity else e.allows .quantity

theorem normalQuantity?_of_isPermitted (hquantity : isQuantity (q.text ++ last))
    (h : q.IsPermitted e) :
    normalQuantity? e (q.text ++ last) = some (q.normal.text ++ last) := by
  unfold IsPermitted at h
  split at h
  · rename_i hsign
    rw [normalQuantity?_of_minus hquantity hsign, if_pos h]
  · rename_i hsign
    rw [normalQuantity?_of_not_minus hquantity hsign, if_pos h]

theorem cases_of_normalQuantity?_text {r : Text} (hquantity : isQuantity (q.text ++ last))
    (h : normalQuantity? e (q.text ++ last) = some r) :
    (q.IsPermitted e ∧ r = q.normal.text ++ last) ∨
      (q.number.sign = some .minus ∧ ¬ e.allows .negativeQuantity ∧ e.allows .quantity ∧
        r = ['0']) := by
  unfold IsPermitted
  by_cases hsign : q.number.sign = some .minus
  · rw [normalQuantity?_of_minus hquantity hsign] at h
    grind
  · rw [normalQuantity?_of_not_minus hquantity hsign] at h
    grind

theorem isPermitted_normal : q.normal.IsPermitted e ↔ q.IsPermitted e := by
  have hsign : q.normal.number.sign = some .minus ↔ q.number.sign = some .minus := by
    show Sign.normal q.number.sign = _ ↔ _
    rcases q.number.sign with _ | _ | _ <;> decide
  unfold IsPermitted
  simp only [hsign]

/-- What is permitted in normal form is its own normal form. -/
theorem normalQuantity?_normal (hquantity : isQuantity (q.normal.text ++ last))
    (h : q.IsPermitted e) :
    normalQuantity? e (q.normal.text ++ last) = some (q.normal.text ++ last) := by
  rw [normalQuantity?_of_isPermitted hquantity (isPermitted_normal.mpr h), normal_normal]

/-- Reading back what a text is written from. -/
theorem isWritten_iff_eq (h : q.IsWritten t) (p : Quantity) : p.IsWritten t ↔ p = q :=
  ⟨fun hp => hp.unique h, fun hp => hp ▸ h⟩

end Quantity

/-- The first character of a normal form is no plus sign and no point, and a minus sign
only where it is permitted. -/
theorem head?_of_normalQuantity? {e : Entry} {t r : Token}
    (h : normalQuantity? e t = some r) :
    r.head? ≠ some '+' ∧ r.head? ≠ some '.' ∧
    (r.head? = some '-' → e.allows .negativeQuantity) := by
  rcases (cases_of_normalQuantity? h).2 with ⟨u, rfl, hentry⟩ | ⟨-, hhead⟩
  · exact ⟨nofun, nofun, fun _ => hentry⟩
  · exact ⟨fun hc => hhead _ hc (by decide), fun hc => hhead _ hc (by decide),
      fun hc => absurd (by decide) (hhead _ hc)⟩

/-- The normal form of a quantity is a quantity in normal form with the same value and
the same unit, unless it is below zero and this is not permitted. There is one
wherever its sign is permitted. -/
theorem normalQuantity_faithful (e : Entry) {t : Token} (ht : isQuantity t)
    (hdigits : HasPlainDigits t) :
    (normalQuantity? e t = none ↔
      ¬ (e.allows .quantity ∨ t.head? = some '-' ∧ e.allows .negativeQuantity)) ∧
    ∀ r, normalQuantity? e t = some r →
      isQuantity r ∧ r.head? ≠ some '+' ∧ r.head? ≠ some '.' ∧
      (r.head? = some '-' → e.allows .negativeQuantity) ∧ normalQuantity? e r = some r ∧
      if t.head? = some '-' ∧ ¬ e.allows .negativeQuantity then r = ['0']
      else ∃ q q' : Quantity, (∀ p : Quantity, p.IsWritten t ↔ p = q) ∧
        (∀ p : Quantity, p.IsWritten r ↔ p = q') ∧
        q'.number.value = q.number.value ∧ q'.unit = q.unit := by
  obtain ⟨q, hq⟩ := exists_isWritten ht hdigits
  obtain ⟨last, hlast, rfl⟩ := Quantity.isWritten_iff.mp hq
  refine ⟨Quantity.normalQuantity?_eq_none_iff ht, fun r hr => ?_⟩
  obtain ⟨hplus, hpoint, hminus⟩ := head?_of_normalQuantity? hr
  rcases Quantity.cases_of_normalQuantity?_text ht hr with
    ⟨hpermitted, rfl⟩ | ⟨hsign, hnegative, hentry, rfl⟩
  · have hnormal : q.normal.IsWritten (q.normal.text ++ last) :=
      Quantity.isWritten_iff.mpr ⟨last, hlast, rfl⟩
    refine ⟨hnormal.isQuantity, hplus, hpoint, hminus,
      Quantity.normalQuantity?_normal hnormal.isQuantity hpermitted, ?_⟩
    rw [if_neg]
    · exact ⟨q, q.normal, Quantity.isWritten_iff_eq hq, Quantity.isWritten_iff_eq hnormal,
        q.number.value_normal, rfl⟩
    · rintro ⟨hhead, hnegative⟩
      rw [Quantity.IsPermitted, if_pos (Quantity.head?_text_append.mp hhead)]
        at hpermitted
      exact hnegative hpermitted
  · -- the sign is not permitted, and what is left is a zero that has none
    have hzero : isQuantity ['0'] := by decide
    refine ⟨hzero, hplus, hpoint, hminus, ?_, ?_⟩
    · unfold normalQuantity?
      rw [if_pos hzero]
      exact if_pos hentry
    · rw [if_pos ⟨Quantity.head?_text_append.mpr hsign, hnegative⟩]

/-- An entry for quantities of either sign. -/
def signedEntry : Entry :=
  ⟨"margin-top".toList, .only [.quantity, .negativeQuantity], [], []⟩

/-- Half a pixel below zero, a hundred times. -/
def hundredHalves : Quantity :=
  ⟨⟨some .minus, [], [5], some ⟨some .plus, [2], by decide⟩, by decide⟩,
    "px".toList, by decide⟩

theorem normalQuantity_faithful_point :
    isQuantity "-.5e+2px".toList ∧ HasPlainDigits "-.5e+2px".toList ∧
    normalQuantity? signedEntry "-.5e+2px".toList = some "-0.5e+2px".toList ∧
    ∃ q : Quantity, (∀ p : Quantity, p.IsWritten "-0.5e+2px".toList ↔ p = q) ∧
      q.number.value = -50 ∧ q.unit = "px".toList := by
  have ht : isQuantity "-.5e+2px".toList := by decide
  have hdigits : HasPlainDigits "-.5e+2px".toList := by
    unfold HasPlainDigits
    decide
  have hr : normalQuantity? signedEntry "-.5e+2px".toList = some "-0.5e+2px".toList := by
    decide
  have hvalue : hundredHalves.number.value = -50 := by
    have hfive : digitsValue [5] = 5 := rfl
    have htwo : digitsValue [2] = 2 := rfl
    simp only [hundredHalves, Decimal.value, Sign.factor, Exponent.value, List.nil_append,
      hfive, htwo]
    norm_num
  obtain ⟨-, -, -, -, -, hcases⟩ :=
    (normalQuantity_faithful signedEntry ht hdigits).2 _ hr
  rw [if_neg (by decide)] at hcases
  obtain ⟨q, q', hq, hq', hsame, hunit⟩ := hcases
  obtain rfl : hundredHalves = q := (hq hundredHalves).mp (.inl (by decide))
  exact ⟨ht, hdigits, hr, q', hq', hsame.trans hvalue, hunit⟩

end CssGuard
