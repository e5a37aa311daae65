import CssGuard.Media
import CssGuard.Proofs.Lexer.Spelling
import CssGuard.Value.Sanitize

/-!
# Numbers are read back

A number with a unit is read back as one token. The numbers that are written come
from three recognizers, which differ in the exponents they admit; all of them
accept numbers of the lexer.

- `IsUnitText`, `IsNumeral`: a unit, and a number with a unit in small letters
- `BeginsNumber`: the first characters of a number
- `reads_number`, `reads_numeral`: a number with its unit is read back as itself
- `isNumeral_of_isQuantity`, `isNumeral_of_isMediaNumber`: what the recognizers
  accept, up to a final newline
- `normalQuantity?_cases`, `isNumeral_of_normalQuantity?`: a quantity in normal form
-/

namespace CssGuard

open Text Lexeme
open scoped Text.ByCharacter

/-- A unit: nothing, a percent sign, or letters. -/
def IsUnitText (unit : Text) : Prop :=
  unit = ['%'] ∨ ∀ c ∈ unit, isLetter c

/-- A number with a unit, in small letters. -/
def IsNumeral (t : Text) : Prop :=
  ∃ digits unit, t = digits ++ unit ∧ number.accepts digits ∧ isSmallUnit unit

/-- What ends a number with its unit. -/
def endsNumber (c : Char) : Bool :=
  c ∈ [' ', '\n', ',', ')', ';', '/']

theorem isUnitText_of_isSmallUnit {unit : Text} (h : isSmallUnit unit) :
    IsUnitText unit := by
  unfold isSmallUnit at h
  refine (Bool.or_eq_true_iff.mp h).imp of_decide_eq_true fun hall c hc => ?_
  exact isLetter_of_isSmall (List.all_eq_true.mp hall c hc)

theorem accepts_iff {σ : Type} (a : Automaton σ) (t : Text) :
    a.accepts t ↔ ∃ s, a.run a.start t = some s ∧ a.final s := by
  rw [Automaton.accepts]
  cases a.run a.start t <;> simp

/-! ## Steps of the recognizers -/

/-- A recognizer that admits more exponents takes every step of one that admits fewer. -/
theorem step_numberWith_mono {p q : Char → Bool} (hpq : ∀ c, p c → q c)
    {s s' : NumberState} {c : Char} (h : (numberWith p).step s c = some s') :
    (numberWith q).step s c = some s' := by
  have hmark : numberWith.mark p c = some s' → numberWith.mark q c = some s' := by
    unfold numberWith.mark
    intro h
    split at h
    · rename_i hp
      rw [if_pos (hpq c hp)]
      exact h
    · cases h
  cases s <;> simp only [numberWith] at h ⊢ <;> grind

theorem run_numberWith_mono {p q : Char → Bool} (hpq : ∀ c, p c → q c) {t : Text} :
    ∀ {s s' : NumberState}, (numberWith p).run s t = some s' →
      (numberWith q).run s t = some s' := by
  induction t with
  | nil => exact fun h => h
  | cons c t ih =>
    intro s s' h
    obtain ⟨s₁, hstep, hrun⟩ := Option.bind_eq_some_iff.mp h
    rw [Automaton.run, step_numberWith_mono hpq hstep]
    exact ih hrun

theorem accepts_numberWith_mono {p q : Char → Bool} (hpq : ∀ c, p c → q c) {t : Text}
    (h : (numberWith p).accepts t) : (numberWith q).accepts t := by
  obtain ⟨s, hrun, hfinal⟩ := (accepts_iff _ _).mp h
  exact (accepts_iff _ _).mpr ⟨s, run_numberWith_mono hpq hrun, hfinal⟩

/-- The characters of numbers, digits aside. -/
def numberMarks : List Char :=
  ['.', '+', '-', 'e', 'E']

theorem isDecimal_or_mem_of_step {s s' : NumberState} {c : Char}
    (h : number.step s c = some s') : isDecimal c ∨ c ∈ numberMarks := by
  simp only [numberMarks, List.mem_cons, List.not_mem_nil, or_false]
  rcases NumberState.cases_of_step h with ⟨hc, -⟩ | ⟨hc, -⟩ | ⟨hc, -⟩ | ⟨hc, -⟩
  · exact .inl hc
  · exact .inr (.inl hc)
  · exact .inr (.inr (hc.imp_right .inl))
  · exact .inr (.inr (.inr (.inr (by simpa using hc))))

theorem isDecimal_or_mem_of_run {t : Text} :
    ∀ {s s' : NumberState}, number.run s t = some s' →
    ∀ c ∈ t, isDecimal c ∨ c ∈ numberMarks := by
  induction t with
  | nil => intro s s' _ c hc; cases hc
  | cons d t ih =>
    intro s s' h c hc
    obtain ⟨s₁, hstep, hrun⟩ := Option.bind_eq_some_iff.mp h
    rcases List.mem_cons.mp hc with rfl | hc
    · exact isDecimal_or_mem_of_step hstep
    · exact ih hrun c hc

/-- The text begins like a number: with a digit or a point, maybe after a sign. -/
def BeginsNumber : Text → Prop
  | c :: rest => isDecimal c ∨ c = '.' ∨
      ((c = '+' ∨ c = '-') ∧ ∃ d more, rest = d :: more ∧ (isDecimal d ∨ d = '.'))
  | [] => False

theorem beginsNumber_of_accepts {t : Text} (h : number.accepts t) : BeginsNumber t := by
  obtain ⟨s, hrun, hfinal⟩ := (accepts_iff _ _).mp h
  cases t with
  | nil =>
    cases hrun
    cases hfinal
  | cons c rest =>
    obtain ⟨s₁, hstep, hrun⟩ := Option.bind_eq_some_iff.mp hrun
    rcases NumberState.cases_of_step hstep with ⟨hc, -⟩ | ⟨hc, -⟩ | ⟨hc, hs⟩ | ⟨-, hs, -⟩
    · exact .inl hc
    · exact .inr (.inl hc)
    · -- a sign is no number yet, so something follows, and it is no second sign
      obtain rfl : s₁ = .sign := hs.elim (·.2) nofun
      refine .inr (.inr ⟨hc, ?_⟩)
      cases rest with
      | nil =>
        cases hrun
        cases hfinal
      | cons d more =>
        obtain ⟨s₂, hstep, -⟩ := Option.bind_eq_some_iff.mp hrun
        refine ⟨d, more, rfl, ?_⟩
        rcases NumberState.cases_of_step hstep with
          ⟨hd, -⟩ | ⟨hd, -⟩ | ⟨-, hs⟩ | ⟨-, hs, -⟩
        · exact .inl hd
        · exact .inr hd
        · exact hs.elim nofun nofun
        · exact hs.elim nofun nofun
    · exact hs.elim nofun nofun

theorem BeginsNumber.exists_cons {t : Text} (h : BeginsNumber t) :
    ∃ c rest, t = c :: rest ∧ (isDecimal c ∨ c = '.' ∨ c = '+' ∨ c = '-') ∧
      (c = '-' → rest.head? ≠ some '-') := by
  unfold BeginsNumber at h
  split at h
  · rename_i c rest
    refine ⟨c, rest, rfl, ?_, ?_⟩
    · rcases h with h | h | ⟨h, -⟩
      · exact .inl h
      · exact .inr (.inl h)
      · exact .inr (.inr h)
    · rintro rfl hhead
      rcases h with h | h | ⟨-, d, more, rfl, hd⟩
      · exact absurd h (by decide)
      · cases h
      · cases hhead
        exact absurd hd (by decide)
  · cases h

theorem BeginsNumber.append {t : Text} (h : BeginsNumber t) (u : Text) :
    BeginsNumber (t ++ u) := by
  unfold BeginsNumber at h
  split at h
  · rcases h with h | h | ⟨h, d, more, rfl, hd⟩
    · exact .inl h
    · exact .inr (.inl h)
    · exact .inr (.inr ⟨h, d, more ++ u, rfl, hd⟩)
  · cases h

/-- What begins like a number does not begin like a name. -/
theorem BeginsNumber.not_beginsName {t : Text} (h : BeginsNumber t) : ¬ BeginsName t := by
  have hmark : ∀ {c : Char}, isNameStart c ∧ ¬ isDigit c → ¬ isDecimal c ∧ c ≠ '.' := by
    rintro c ⟨hstart, hdigit⟩
    exact ⟨fun hc => hdigit (isDigit_of_isDecimal hc),
      ne_of_isNameStart hstart (by decide)⟩
  intro hname
  unfold BeginsName at hname
  split at hname
  · obtain ⟨hdecimal, hpoint⟩ := hmark hname
    rcases h with h | h | ⟨-, d, more, heq, hd⟩
    · exact absurd h (by decide)
    · cases h
    · cases heq
      exact hd.elim hdecimal hpoint
  · obtain ⟨hdecimal, hpoint⟩ := hmark hname
    rcases h with h | h | ⟨rfl | rfl, -⟩
    · exact hdecimal h
    · exact hpoint h
    · exact absurd hname.1 (by decide)
    · exact absurd hname.1 (by decide)
  · cases hname

/-! ## Nothing is added to a number -/

theorem step_endsNumber {c : Char} (hc : endsNumber c) (s : NumberState) :
    number.step s c = none := by
  have hclass : ∀ c ∈ [' ', '\n', ',', ')', ';', '/'], ¬ isDecimal c ∧
      c ∉ numberMarks := by
    decide
  cases hstep : number.step s c with
  | none => rfl
  | some s' =>
    obtain ⟨h₁, h₂⟩ := hclass c (of_decide_eq_true hc)
    exact ((isDecimal_or_mem_of_step hstep).elim h₁ h₂).elim

theorem stuck_endsNumber {rest : Text} (hrest : Starts endsNumber rest)
    (s : NumberState) : number.Stuck s rest := by
  cases rest with
  | nil => trivial
  | cons c rest =>
    exact number.stuck_of_step_eq_none (step_endsNumber (starts_cons.mp hrest) s)

/-- A letter leads nowhere, or to an exponent without digits. -/
theorem step_letter {c : Char} (hc : isLetter c) {s s' : NumberState}
    (h : number.step s c = some s') : s ≠ .exponentMark ∧ s' = .exponentMark := by
  have hclass : ¬ isDecimal c ∧ c ≠ '.' ∧ c ≠ '+' ∧ c ≠ '-' := by
    have hascii := ascii_of_isPlainNameChar (isPlainNameChar_of_isLetter hc)
    rw [isDecimal_eq_of_ascii hascii]
    exact forall_ascii (fun c => isLetter c → ¬ isPlainDigit c ∧ c ≠ '.' ∧
      c ≠ '+' ∧ c ≠ '-') (by decide) hascii hc
  obtain ⟨hdecimal, hpoint, hplus, hminus⟩ := hclass
  rcases NumberState.cases_of_step h with ⟨hd, -⟩ | ⟨hd, -⟩ | ⟨hd, -⟩ | ⟨-, hs', hnext⟩
  · exact absurd hd hdecimal
  · exact absurd hd hpoint
  · exact (hd.elim hplus hminus).elim
  · refine ⟨?_, hnext⟩
    rintro rfl
    exact hs'.elim nofun nofun

/-- Nothing of a unit, nor of what follows it, is added to a number. -/
theorem stuck_unit (s : NumberState) {unit rest : Text}
    (hunit : IsUnitText unit) (hrest : Starts endsNumber rest) :
    number.Stuck s (unit ++ rest) := by
  have hmark : ∀ {u : Text}, (∀ c ∈ u, isLetter c) →
      number.Stuck .exponentMark (u ++ rest) := by
    intro u hu
    cases u with
    | nil => exact stuck_endsNumber hrest _
    | cons c u =>
      intro s' hs'
      exact absurd rfl (step_letter (hu c (List.mem_cons_self ..)) hs').1
  rcases hunit with rfl | hletters
  · refine number.stuck_of_step_eq_none ?_
    cases hstep : number.step s '%' with
    | none => rfl
    | some s' => exact absurd (isDecimal_or_mem_of_step hstep) (by decide)
  · cases unit with
    | nil => exact stuck_endsNumber hrest _
    | cons c u =>
      intro s' hs'
      obtain ⟨-, rfl⟩ := step_letter (hletters c (List.mem_cons_self ..)) hs'
      exact ⟨by decide, hmark fun d hd => hletters d (List.mem_cons_of_mem _ hd)⟩

theorem isBareName_of_letters {u : Text} (hall : ∀ c ∈ u, isLetter c) (hne : u ≠ []) :
    IsBareName u := by
  obtain ⟨c, u, rfl⟩ := List.exists_cons_of_ne_nil hne
  refine isBareName_of_isPlainIdent (isPlainIdent_cons_of_letter
    (hall c (List.mem_cons_self ..)) ?_)
  exact fun d hd => isPlainNameChar_of_isLetter (hall d (List.mem_cons_of_mem _ hd))

/-! ## Reading -/

theorem starts_endsRun_of_endsNumber {rest : Text} (h : Starts endsNumber rest) :
    Starts endsRun rest := by
  refine h.mono fun c hc => ?_
  exact (by decide : ∀ c ∈ [' ', '\n', ',', ')', ';', '/'], endsRun c) c
    (of_decide_eq_true hc)

theorem number?_append {digits unit rest : Text} (hdigits : number.accepts digits)
    (hunit : IsUnitText unit) (hrest : Starts endsNumber rest) :
    number? (digits ++ unit ++ rest) =
      some (⟨.number digits unit, digits ++ unit⟩, rest) := by
  obtain ⟨s, hrun, hfinal⟩ := (accepts_iff _ _).mp hdigits
  rw [List.append_assoc, number?,
    number.longest?_append hrun hfinal (stuck_unit s hunit hrest), Option.map_some]
  dsimp only
  rcases hunit with rfl | hletters
  · rfl
  have hbreak := starts_endsRun_of_endsNumber hrest
  cases unit with
  | nil =>
    have hident : ident? rest = none := by
      refine ident?_eq_none ?_
      cases rest with
      | nil => trivial
      | cons c rest =>
        have hclass : ∀ c ∈ [' ', '\n', ',', ')', ';', '/'],
            (¬ isNameStart c ∧ c ≠ '\\') ∧ c ≠ '-' := by
          decide
        obtain ⟨hc, hdash⟩ := hclass c (of_decide_eq_true (starts_cons.mp hrest))
        exact beginsNoIdent_cons hdash hc rest
    rw [List.nil_append, hident, List.append_nil]
    split
    · exact absurd rfl (not_starts_of_head hrest (by decide))
    · rfl
  | cons c u =>
    rw [ident?_append (isBareName_of_letters hletters (List.cons_ne_nil c u)).isSpelling
      hbreak]
    split
    · rename_i heq
      cases heq
      exact absurd (hletters _ (List.mem_cons_self ..)) (by decide)
    · rfl

/-- What can begin a number begins nothing that is tried before numbers. -/
theorem passesEarly_number {c : Char} {t : Text}
    (hc : isDecimal c ∨ c = '.' ∨ c = '+' ∨ c = '-')
    (hdash : c = '-' → t.head? ≠ some '-') : PassesEarly (c :: t) := by
  have hclass : ¬ isSpace c ∧ c ≠ '/' ∧ c ≠ '<' ∧ (c ≠ '"' ∧ c ≠ '\'') ∧
      c.toLower ≠ 'u' := by
    rcases ascii_or_foreign c with hascii | hforeign
    · rw [isDecimal_eq_of_ascii hascii] at hc
      exact forall_ascii (fun c => isPlainDigit c ∨ c = '.' ∨ c = '+' ∨ c = '-' →
        ¬ isSpace c ∧ c ≠ '/' ∧ c ≠ '<' ∧ (c ≠ '"' ∧ c ≠ '\'') ∧ c.toLower ≠ 'u')
        (by decide) hascii hc
    · have hstart := isNameStart_of_isForeign hforeign
      refine ⟨(isClean_of_isNameChar (isNameChar_of_isForeign hforeign)).2,
        ne_of_isNameStart hstart (by decide), ne_of_isNameStart hstart (by decide),
        ⟨ne_of_isNameStart hstart (by decide), ne_of_isNameStart hstart (by decide)⟩, ?_⟩
      rw [toLower_of_isForeign hforeign]
      rintro rfl
      exact absurd hforeign (by decide)
  obtain ⟨hspace, hslash, hless, hquote, hu⟩ := hclass
  exact ⟨space?_eq_none hspace, comment?_eq_none fun h => absurd h hslash,
    mark?_eq_none hless hdash, string?_eq_none hquote, url?_eq_none_of_head hu,
    codeRange?_eq_none_of_head hu⟩

theorem isClean_of_isDecimal {c : Char} (h : isDecimal c) : isClean c := by
  rcases ascii_or_foreign c with hascii | hforeign
  · rw [isDecimal_eq_of_ascii hascii] at h
    exact forall_ascii (fun c => isPlainDigit c → isClean c) (by decide) hascii h
  · exact (isClean_of_isNameChar (isNameChar_of_isForeign hforeign)).1

theorem isClean_of_mem_number {digits unit : Text} (hdigits : number.accepts digits)
    (hunit : IsUnitText unit) : ∀ c ∈ digits ++ unit, isClean c := by
  obtain ⟨s, hrun, -⟩ := (accepts_iff _ _).mp hdigits
  intro c hc
  rcases List.mem_append.mp hc with hc | hc
  · rcases isDecimal_or_mem_of_run hrun c hc with h | h
    · exact isClean_of_isDecimal h
    · exact (by decide : ∀ c ∈ numberMarks, isClean c) c h
  · rcases hunit with rfl | hletters
    · rw [List.mem_singleton.mp hc]
      decide
    · exact (isClean_of_isNameChar (isNameChar_of_isPlainNameChar
        (isPlainNameChar_of_isLetter (hletters c hc)))).1

theorem decode_unit {unit : Text} (h : IsUnitText unit) : Escape.decode unit = unit := by
  refine Escape.decode_eq_self fun hmem => ?_
  rcases h with rfl | hletters
  · exact absurd hmem (by decide)
  · exact absurd (hletters _ hmem) (by decide)

theorem isUnit_of_isUnitText {unit : Text} (h : IsUnitText unit) :
    unit.isEmpty ∨ isUnit unit := by
  by_cases hne : unit = []
  · exact .inl (List.isEmpty_iff.mpr hne)
  · refine .inr ?_
    simp only [isUnit, isLineOf, isRunOf, Bool.or_eq_true, Bool.and_eq_true,
      decide_eq_true_eq]
    exact .inl (h.imp id fun hall => ⟨by simpa using hne, List.all_eq_true.mpr hall⟩)

/-- A number with its unit is read back as itself. -/
theorem reads_number {digits unit : Text} (hdigits : number.accepts digits)
    (hunit : IsUnitText unit) : Reads endsNumber (digits ++ unit) [digits ++ unit] := by
  have hwritten : unit.isEmpty ∨ isUnit (Escape.decode unit) := by
    rw [decode_unit hunit]
    exact isUnit_of_isUnitText hunit
  refine reads_of_first? (l := ⟨.number digits unit, digits ++ unit⟩)
    (fun rest hrest => ?_) ?_ (fun p => if_pos hwritten)
      (isClean_of_mem_number hdigits hunit)
  · refine first?_eq_number? ?_ (number?_append hdigits hunit hrest)
    obtain ⟨c, ds, rfl, hc, hdash⟩ := (beginsNumber_of_accepts hdigits).exists_cons
    refine passesEarly_number hc fun h => ?_
    cases ds with
    | nil =>
      -- a sign alone is no number
      subst h
      exact absurd hdigits (by decide)
    | cons d ds => exact hdash h
  · show (if unit.isEmpty ∨ isUnit (Escape.decode unit) then
      some (digits ++ Escape.decode unit)
      else none) = _
    rw [if_pos hwritten, decode_unit hunit]

theorem reads_numeral {t : Text} (h : IsNumeral t) : Reads endsNumber t [t] := by
  obtain ⟨digits, unit, rfl, hdigits, hunit⟩ := h
  exact reads_number hdigits (isUnitText_of_isSmallUnit hunit)

/-! ## What the recognizers accept -/

/-- One of the texts that pass a test, or one with a newline after it. -/
theorem cases_of_isLineOf {accepts : Text → Bool} {t : Text} (h : isLineOf accepts t) :
    accepts t ∨ ∃ t', t = t' ++ ['\n'] ∧ accepts t' := by
  unfold isLineOf at h
  rcases Bool.or_eq_true_iff.mp h with h | h
  · exact .inl h
  · obtain ⟨hlast, hfront⟩ := Bool.and_eq_true_iff.mp h
    refine .inr ⟨t.dropLast, ?_, hfront⟩
    obtain ⟨ys, rfl⟩ := List.getLast?_eq_some_iff.mp (eq_of_beq hlast)
    rw [List.dropLast_concat]

/-- The text, or the text and a newline. -/
def IsMaybeLine (t q : Text) : Prop :=
  q = t ∨ q = t ++ ['\n']

theorem exists_of_isLineOf {accepts : Text → Bool} {P : Text → Prop}
    (hP : ∀ t, accepts t → P t) {q : Text} (h : isLineOf accepts q) :
    ∃ t, P t ∧ IsMaybeLine t q := by
  rcases cases_of_isLineOf h with hq | ⟨t, rfl, ht⟩
  · exact ⟨q, hP q hq, .inl rfl⟩
  · exact ⟨t, hP t ht, .inr rfl⟩

theorem isNumeral_of_longest? {p : Char → Bool} (hp : ∀ c, p c → c = 'e' || c = 'E')
    {t digits unit : Text} (h : (numberWith p).longest? t = some (digits, unit))
    (hunit : isSmallUnit unit) : IsNumeral t := by
  refine ⟨digits, unit, ((numberWith p).append_of_longest? h).symm, ?_, hunit⟩
  exact accepts_numberWith_mono hp ((numberWith p).accepts_of_longest? h)

/-- A quantity is a numeral, maybe with a newline after it. -/
theorem isNumeral_of_isQuantity {q : Text} (h : isQuantity q) :
    ∃ t, IsNumeral t ∧ IsMaybeLine t q := by
  refine exists_of_isLineOf (fun t ht => ?_) h
  obtain ⟨⟨digits, unit⟩, hlongest, hunit⟩ := (Option.any_eq_true _ _).mp ht
  exact isNumeral_of_longest? (fun c hc => by simp [of_decide_eq_true hc]) hlongest hunit

/-- The number of a media feature is a numeral, maybe with a newline
after it that means nothing. -/
theorem isNumeral_of_isMediaNumber {q : Text} (h : isMediaNumber q) :
    ∃ t, (IsNumeral t ∧ isMediaNumber t) ∧ IsMaybeLine t q := by
  refine exists_of_isLineOf (P := fun t => IsNumeral t ∧
    isMediaNumber t) (fun t ht => ⟨?_, ?_⟩) h
  · obtain ⟨⟨digits, unit⟩, hlongest, hunit⟩ :=
      (Option.any_eq_true _ _).mp (Bool.and_eq_true_iff.mp ht).2
    refine isNumeral_of_longest? (fun c hc => by cases hc) hlongest ?_
    exact Bool.or_eq_true_iff.mpr (.inr hunit)
  · rw [isMediaNumber, isLineOf, ht]
    rfl

/-! ## Quantities in normal form -/

/-- A digit in front of a point changes nothing about what follows. -/
theorem run_leadZero {s : NumberState} (hs : s = .start ∨ s = .sign) {ds : Text}
    (hne : ds ≠ []) : number.run s ('0' :: '.' :: ds) = number.run s ('.' :: ds) := by
  obtain ⟨d, ds, rfl⟩ := List.exists_cons_of_ne_nil hne
  rcases hs with rfl | rfl <;> rfl

/-- The number that is left after a sign is a number. -/
theorem run_sign {ds : Text} {s : NumberState} (hne : ds ≠ [])
    (h : number.run .sign ds = some s) : number.run .start ds = some s := by
  obtain ⟨d, ds, rfl⟩ := List.exists_cons_of_ne_nil hne
  obtain ⟨s₁, hstep, hrun⟩ := Option.bind_eq_some_iff.mp h
  have : number.step .start d = some s₁ := by
    simp only [number, numberWith] at hstep ⊢
    grind
  rw [Automaton.run, this]
  exact hrun

theorem IsNumeral.ne_nil {t : Text} (h : IsNumeral t) : t ≠ [] := by
  obtain ⟨digits, unit, rfl, hdigits, -⟩ := h
  obtain ⟨c, rest, rfl, -⟩ := (beginsNumber_of_accepts hdigits).exists_cons
  exact List.cons_ne_nil _ _

/-- After its sign a numeral goes on, and not with a sign. -/
theorem IsNumeral.head_of_sign {c : Char} {t : Text} (h : IsNumeral (c :: t))
    (hc : c ∈ ['+', '-']) : ∃ d more, t = d :: more ∧ d ∉ ['+', '-'] := by
  have hclass : ∀ c ∈ ['+', '-'], ¬ isDecimal c ∧ c ≠ '.' := by decide
  obtain ⟨digits, unit, heq, hdigits, -⟩ := h
  have hbegins := (beginsNumber_of_accepts hdigits).append unit
  rw [← heq] at hbegins
  rcases hbegins with hdecimal | hpoint | ⟨-, d, more, rfl, hd⟩
  · exact absurd hdecimal (hclass c hc).1
  · exact absurd hpoint (hclass c hc).2
  · exact ⟨d, more, rfl, fun hmem => hd.elim (hclass d hmem).1 (hclass d hmem).2⟩

/-- The first character of a numeral is the first of its digits. -/
theorem IsNumeral.exists_cons {c : Char} {t : Text} (h : IsNumeral (c :: t)) :
    ∃ ds unit s, t = ds ++ unit ∧ isSmallUnit unit ∧
      number.run .start (c :: ds) = some s ∧ number.final s := by
  obtain ⟨digits, unit, heq, hdigits, hunit⟩ := h
  obtain ⟨s, hrun, hfinal⟩ := (accepts_iff _ _).mp hdigits
  obtain ⟨d, ds, rfl, -⟩ := (beginsNumber_of_accepts hdigits).exists_cons
  cases heq
  exact ⟨ds, unit, s, rfl, hunit, hrun, hfinal⟩

theorem isNumeral_of_run {digits unit : Text} {s : NumberState}
    (hrun : number.run .start digits = some s) (hfinal : number.final s)
    (hunit : isSmallUnit unit) : IsNumeral (digits ++ unit) :=
  ⟨digits, unit, rfl, (accepts_iff _ _).mpr ⟨s, hrun, hfinal⟩, hunit⟩

theorem leadZero_eq_self {t : Text} (h : t.head? ≠ some '.') : leadZero t = t := by
  unfold leadZero
  split
  · exact absurd rfl h
  · rfl

theorem isNumeral_leadZero {t : Text} (h : IsNumeral t) : IsNumeral (leadZero t) := by
  unfold leadZero
  split
  · obtain ⟨ds, unit, s, rfl, hunit, hrun, hfinal⟩ := h.exists_cons
    have hne : ds ≠ [] := by
      rintro rfl
      cases hrun
      cases hfinal
    rw [← run_leadZero (.inl rfl) hne] at hrun
    exact isNumeral_of_run hrun hfinal hunit
  · exact h

theorem isNumeral_of_plus {t : Text} (h : IsNumeral ('+' :: t)) : IsNumeral t := by
  obtain ⟨ds, unit, s, rfl, hunit, hrun, hfinal⟩ := h.exists_cons
  have hne : ds ≠ [] := by
    rintro rfl
    rw [show number.run .start ['+'] = some .sign from by decide] at hrun
    cases hrun
    cases hfinal
  exact isNumeral_of_run (run_sign hne hrun) hfinal hunit

theorem isNumeral_minus_leadZero {t : Text} (h : IsNumeral ('-' :: t)) :
    IsNumeral ('-' :: leadZero t) := by
  obtain ⟨ds, unit, s, rfl, hunit, hrun, hfinal⟩ := h.exists_cons
  have hminus : ∀ ds, number.run .start ('-' :: ds) = number.run .sign ds := by
    intro ds
    rw [Automaton.run, show number.step .start '-' = some .sign from by decide]
    rfl
  rw [hminus] at hrun
  cases ds with
  | nil =>
    cases hrun
    cases hfinal
  | cons d ds =>
    by_cases hd : d = '.'
    · subst hd
      have hne : ds ≠ [] := by
        rintro rfl
        cases hrun
        cases hfinal
      rw [← run_leadZero (.inr rfl) hne, ← hminus] at hrun
      exact isNumeral_of_run hrun hfinal hunit
    · have hpoint : (d :: ds ++ unit).head? ≠ some '.' :=
        fun heq => hd (Option.some.inj heq)
      rw [leadZero_eq_self hpoint]
      rw [← hminus] at hrun
      exact isNumeral_of_run hrun hfinal hunit

theorem leadZero_newline {t : Text} (hne : t ≠ []) :
    leadZero (t ++ ['\n']) = leadZero t ++ ['\n'] := by
  obtain ⟨c, t, rfl⟩ := List.exists_cons_of_ne_nil hne
  by_cases hc : c = '.'
  · subst hc
    rfl
  · have hlead : ∀ t : Text, leadZero (c :: t) = c :: t := fun t =>
      leadZero_eq_self fun heq => hc (Option.some.inj heq)
    rw [List.cons_append, hlead, hlead, List.cons_append]

theorem IsMaybeLine.leadZero {t q : Text} (h : IsMaybeLine t q) (hne : t ≠ []) :
    IsMaybeLine (leadZero t) (leadZero q) := by
  rcases h with rfl | rfl
  · exact .inl rfl
  · exact .inr (leadZero_newline hne)

theorem IsMaybeLine.of_cons {c : Char} {t q : Text} (h : IsMaybeLine t (c :: q))
    (hne : t ≠ []) : ∃ t', t = c :: t' ∧ IsMaybeLine t' q := by
  obtain ⟨d, t, rfl⟩ := List.exists_cons_of_ne_nil hne
  rcases h with h | h
  · obtain ⟨hc, hq⟩ := List.cons.inj h
    exact ⟨t, by rw [hc], .inl hq⟩
  · obtain ⟨hc, hq⟩ := List.cons.inj h
    exact ⟨t, by rw [hc], .inr hq⟩

theorem IsMaybeLine.cons {t q : Text} (c : Char) (h : IsMaybeLine t q) :
    IsMaybeLine (c :: t) (c :: q) := by
  rcases h with rfl | rfl
  · exact .inl rfl
  · exact .inr rfl

/-- What becomes of a quantity: its sign decides about the
permission and about what is kept. -/
theorem normalQuantity?_cases {e : Entry} {q r : Text}
    (h : normalQuantity? e q = some r) :
    isQuantity q ∧
      ((∃ rest, q = '+' :: rest ∧ e.allows .quantity ∧ r = leadZero rest) ∨
        (∃ rest, q = '-' :: rest ∧ e.allows .negativeQuantity ∧
          r = '-' :: leadZero rest) ∨
        (∃ rest, q = '-' :: rest ∧ e.allows .quantity ∧ r = ['0']) ∨
        ((∀ c ∈ q.head?, c ∉ ['+', '-']) ∧ e.allows .quantity ∧ r = leadZero q)) := by
  unfold normalQuantity? at h
  obtain ⟨hquantity, h⟩ := Option.ite_none_right_eq_some.mp h
  refine ⟨hquantity, ?_⟩
  split at h
  · obtain ⟨hentry, heq⟩ := Option.ite_none_right_eq_some.mp h
    cases heq
    exact .inl ⟨_, rfl, hentry, rfl⟩
  · split at h
    · rename_i hentry
      cases h
      exact .inr (.inl ⟨_, rfl, hentry, rfl⟩)
    · obtain ⟨hentry, heq⟩ := Option.ite_none_right_eq_some.mp h
      cases heq
      exact .inr (.inr (.inl ⟨_, rfl, hentry, rfl⟩))
  · rename_i hplus hminus
    obtain ⟨hentry, heq⟩ := Option.ite_none_right_eq_some.mp h
    cases heq
    refine .inr (.inr (.inr ⟨fun c hc hmem => ?_, hentry, rfl⟩))
    obtain ⟨rest, rfl⟩ := List.head?_eq_some_iff.mp hc
    simp only [List.mem_cons, List.not_mem_nil, or_false] at hmem
    rcases hmem with rfl | rfl
    · exact hplus _ rfl
    · exact hminus _ rfl

/-- A quantity in normal form is a numeral, maybe with a newline after it. -/
theorem isNumeral_of_normalQuantity? {e : Entry} {q r : Text}
    (h : normalQuantity? e q = some r) : ∃ t, IsNumeral t ∧ IsMaybeLine t r := by
  obtain ⟨hquantity, hcases⟩ := normalQuantity?_cases h
  obtain ⟨t, ht, hline⟩ := isNumeral_of_isQuantity hquantity
  rcases hcases with ⟨rest, rfl, -, rfl⟩ | ⟨rest, rfl, -, rfl⟩ |
    ⟨rest, rfl, -, rfl⟩ | ⟨-, -, rfl⟩
  · obtain ⟨t', rfl, hrest⟩ := hline.of_cons ht.ne_nil
    have ht' := isNumeral_of_plus ht
    exact ⟨_, isNumeral_leadZero ht', hrest.leadZero ht'.ne_nil⟩
  · obtain ⟨t', rfl, hrest⟩ := hline.of_cons ht.ne_nil
    obtain ⟨d, more, rfl, -⟩ := ht.head_of_sign (by decide)
    exact ⟨_, isNumeral_minus_leadZero ht,
      (hrest.leadZero (List.cons_ne_nil _ _)).cons '-'⟩
  · exact ⟨['0'], ⟨['0'], [], rfl, by decide, rfl⟩, .inl rfl⟩
  · exact ⟨_, isNumeral_leadZero ht, hline.leadZero ht.ne_nil⟩

end CssGuard
