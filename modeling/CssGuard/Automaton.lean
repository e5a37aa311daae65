import CssGuard.Text.Basic

/-!
# Automata

A deterministic recognizer of texts, read in two ways: whether it accepts a whole text,
and which is the longest beginning of a text that it accepts.

- `Automaton.run`, `Automaton.accepts`: reading a whole text
- `Automaton.longest?`: the longest accepted beginning and the rest
- `append_of_longest?`: the two parts make up the text
- `accepts_of_longest?`: the first part is accepted
-/

namespace CssGuard

/-- A deterministic recognizer that reads one character at a time and may refuse it. -/
structure Automaton (σ : Type) where
  start : σ
  step : σ → Char → Option σ
  final : σ → Bool

namespace Automaton

variable {σ : Type} (a : Automaton σ)

/-- The state after a text, if no character is refused. -/
def run (s : σ) : Text → Option σ
  | [] => some s
  | c :: rest => (a.step s c).bind fun s' => run s' rest

/-- The whole text is accepted. -/
def accepts (t : Text) : Bool :=
  (a.run a.start t).any a.final

/-- The longest accepted beginning known in a state: the characters read (backwards) and
the rest, or else the best of the earlier states. -/
@[inline] def bestAt (s : σ) (seen rest : Text) (best : Option (Text × Text)) :
    Option (Text × Text) :=
  if a.final s then some (seen, rest) else best

/-- Reads on from a state as far as possible. -/
@[specialize] def longestFrom (s : σ) (seen : Text) (best : Option (Text × Text)) :
    Text → Option (Text × Text)
  | [] => a.bestAt s seen [] best
  | c :: rest =>
    match a.step s c with
    | none => a.bestAt s seen (c :: rest) best
    | some s' => longestFrom s' (c :: seen) (a.bestAt s seen (c :: rest) best) rest

/-- The longest accepted beginning of a text, and what follows it. -/
@[specialize] def longest? (t : Text) : Option (Text × Text) :=
  (a.longestFrom a.start [] none t).map fun (seen, rest) => (seen.reverse, rest)

/-- Every known beginning continues to `whole`. -/
def Continues (whole : Text) (best : Option (Text × Text)) : Prop :=
  ∀ seen rest, best = some (seen, rest) → seen.reverse ++ rest = whole

theorem continues_bestAt {s : σ} {seen rest whole : Text} {best : Option (Text × Text)}
    (hseen : seen.reverse ++ rest = whole) (hbest : Continues whole best) :
    Continues whole (a.bestAt s seen rest best) := by
  intro w r h
  unfold bestAt at h
  split at h
  · cases h; exact hseen
  · exact hbest w r h

theorem continues_longestFrom {rest whole : Text} :
    ∀ {s : σ} {seen : Text} {best : Option (Text × Text)}, seen.reverse ++ rest = whole →
      Continues whole best → Continues whole (a.longestFrom s seen best rest) := by
  induction rest with
  | nil => exact fun hseen hbest => a.continues_bestAt hseen hbest
  | cons c rest ih =>
    intro s seen best hseen hbest
    unfold longestFrom
    split
    · exact a.continues_bestAt hseen hbest
    · exact ih (by simpa using hseen) (a.continues_bestAt hseen hbest)

/-- The accepted beginning and the rest make up the text. -/
theorem append_of_longest? {t w r : Text} (h : a.longest? t = some (w, r)) :
    w ++ r = t := by
  simp only [longest?, Option.map_eq_some_iff] at h
  obtain ⟨⟨w', r'⟩, hfrom, heq⟩ := h
  cases heq
  exact a.continues_longestFrom (by simp) (by simp [Continues]) _ _ hfrom

theorem run_append (s : σ) (t u : Text) :
    a.run s (t ++ u) = (a.run s t).bind (a.run · u) := by
  induction t generalizing s with
  | nil => rfl
  | cons c rest ih => cases h : a.step s c <;> simp [run, h, ih]

/-- Every known beginning is accepted. -/
def Accepted (best : Option (Text × Text)) : Prop :=
  ∀ seen rest, best = some (seen, rest) → a.accepts seen.reverse

theorem accepted_bestAt {s : σ} {seen rest : Text} {best : Option (Text × Text)}
    (hseen : a.run a.start seen.reverse = some s) (hbest : a.Accepted best) :
    a.Accepted (a.bestAt s seen rest best) := by
  intro w r h
  unfold bestAt at h
  split at h
  · rename_i hfinal
    cases h; simp [accepts, hseen, hfinal]
  · exact hbest w r h

theorem accepted_longestFrom {rest : Text} :
    ∀ {s : σ} {seen : Text} {best : Option (Text × Text)},
      a.run a.start seen.reverse = some s → a.Accepted best →
      a.Accepted (a.longestFrom s seen best rest) := by
  induction rest with
  | nil => exact fun hseen hbest => a.accepted_bestAt hseen hbest
  | cons c rest ih =>
    intro s seen best hseen hbest
    unfold longestFrom
    split
    · exact a.accepted_bestAt hseen hbest
    · rename_i s' hstep
      refine ih ?_ (a.accepted_bestAt hseen hbest)
      simp [run_append, hseen, run, hstep]

/-- The beginning that is found is accepted. -/
theorem accepts_of_longest? {t w r : Text} (h : a.longest? t = some (w, r)) :
    a.accepts w := by
  simp only [longest?, Option.map_eq_some_iff] at h
  obtain ⟨⟨w', r'⟩, hfrom, heq⟩ := h
  cases heq
  exact a.accepted_longestFrom (by simp [run]) (by simp [Accepted]) _ _ hfrom

end Automaton

end CssGuard
