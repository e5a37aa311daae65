import CssGuard.Automaton

/-!
# The longest accepted beginning

What `Automaton.longest?` finds, said without its worker: a text that leads to a final
state from which nothing further is accepted.

- `Stuck`: from a state, no further non-empty beginning is accepted
- `longest?_append`: an accepted text is found in front of one that extends it in no way
- `stuck_of_longest?`: what is found is of that kind
- `longest?_eq_none`: where nothing is found
-/

namespace CssGuard.Automaton

variable {σ : Type} (a : Automaton σ)

/-- From the state, no non-empty beginning of the text is accepted. -/
def Stuck (s : σ) : Text → Prop
  | [] => True
  | c :: rest => ∀ s', a.step s c = some s' → ¬ a.final s' ∧ Stuck s' rest

theorem stuck_of_step_eq_none {s : σ} {c : Char} {rest : Text} (h : a.step s c = none) :
    a.Stuck s (c :: rest) := by
  intro s' hs'
  rw [h] at hs'
  cases hs'

/-- The worker keeps what it has when nothing further is accepted. -/
theorem longestFrom_of_stuck {rest : Text} :
    ∀ {s : σ} {seen : Text} {best : Option (Text × Text)}, a.Stuck s rest →
      a.longestFrom s seen best rest = a.bestAt s seen rest best := by
  induction rest with
  | nil => exact fun _ => rfl
  | cons c rest ih =>
    intro s seen best h
    rw [longestFrom]
    cases hstep : a.step s c with
    | none => rfl
    | some s' =>
      obtain ⟨hfinal, hstuck⟩ := h s' hstep
      show a.longestFrom s' (c :: seen) (a.bestAt s seen (c :: rest) best) rest = _
      rw [ih hstuck, bestAt, if_neg hfinal]

theorem longestFrom_append {t rest : Text} :
    ∀ {s s' : σ} {seen : Text} {best : Option (Text × Text)}, a.run s t = some s' →
      a.final s' → a.Stuck s' rest →
      a.longestFrom s seen best (t ++ rest) = some (t.reverse ++ seen, rest) := by
  induction t with
  | nil =>
    intro s s' seen best hrun hfinal hstuck
    cases hrun
    rw [List.nil_append, a.longestFrom_of_stuck hstuck, bestAt, if_pos hfinal]
    rfl
  | cons c t ih =>
    intro s s' seen best hrun hfinal hstuck
    obtain ⟨s₁, hstep, hrun⟩ := Option.bind_eq_some_iff.mp hrun
    rw [List.cons_append, longestFrom, hstep]
    show a.longestFrom s₁ (c :: seen) _ (t ++ rest) = _
    rw [ih hrun hfinal hstuck, List.reverse_cons, List.append_assoc]
    rfl

/-- An accepted text is found in front of a text that extends it in no way. -/
theorem longest?_append {t rest : Text} {s : σ} (hrun : a.run a.start t = some s)
    (hfinal : a.final s) (hstuck : a.Stuck s rest) :
    a.longest? (t ++ rest) = some (t, rest) := by
  rw [longest?, a.longestFrom_append hrun hfinal hstuck, Option.map_some, List.append_nil]
  show some (t.reverse.reverse, rest) = _
  rw [List.reverse_reverse]

/-- Nothing is found where not even the empty text is accepted and nothing further is. -/
theorem longest?_eq_none {t : Text} (hfinal : ¬ a.final a.start)
    (hstuck : a.Stuck a.start t) : a.longest? t = none := by
  rw [longest?, a.longestFrom_of_stuck hstuck, bestAt, if_neg hfinal]
  rfl

/-! ## What is found -/

/-- The worker's answer is a beginning of the text that cannot be extended, or
the answer it started from. -/
theorem cases_of_longestFrom {w r rest : Text} :
    ∀ {s : σ} {seen : Text} {best : Option (Text × Text)},
      a.longestFrom s seen best rest = some (w, r) →
      (∃ p s', p ++ r = rest ∧ w = p.reverse ++ seen ∧ a.run s p = some s' ∧ a.final s' ∧
        a.Stuck s' r) ∨ (best = some (w, r) ∧ ¬ a.final s ∧ a.Stuck s rest) := by
  -- where the worker stops, its answer is the state it is in or the one before
  have stop : ∀ {s : σ} {seen rest : Text} {best : Option (Text × Text)}, a.Stuck s rest →
      a.bestAt s seen rest best = some (w, r) →
      (∃ p s', p ++ r = rest ∧ w = p.reverse ++ seen ∧ a.run s p = some s' ∧ a.final s' ∧
        a.Stuck s' r) ∨ (best = some (w, r) ∧ ¬ a.final s ∧ a.Stuck s rest) := by
    intro s seen rest best hstuck h
    unfold bestAt at h
    split at h
    · rename_i hfinal
      cases h
      exact .inl ⟨[], s, rfl, rfl, rfl, hfinal, hstuck⟩
    · rename_i hfinal
      exact .inr ⟨h, hfinal, hstuck⟩
  induction rest with
  | nil => exact fun h => stop trivial h
  | cons c rest ih =>
    intro s seen best h
    rw [longestFrom] at h
    cases hstep : a.step s c with
    | none =>
      rw [hstep] at h
      exact stop (a.stuck_of_step_eq_none hstep) h
    | some s₁ =>
      rw [hstep] at h
      rcases ih h with ⟨p, s', happ, hw, hrun, hfinal, hstuck⟩ | ⟨hbest, hfinal, hstuck⟩
      · refine .inl ⟨c :: p, s', by rw [List.cons_append, happ], ?_, ?_, hfinal, hstuck⟩
        · rw [hw, List.reverse_cons, List.append_assoc]
          rfl
        · rw [run, hstep]
          exact hrun
      · refine stop (fun s' hs' => ?_) hbest
        rw [hstep] at hs'
        cases hs'
        exact ⟨hfinal, hstuck⟩

/-- What is found leads to a final state from which nothing further is accepted. -/
theorem stuck_of_longest? {t w r : Text} (h : a.longest? t = some (w, r)) :
    ∃ s, a.run a.start w = some s ∧ a.final s ∧ a.Stuck s r := by
  obtain ⟨⟨w', r'⟩, hfrom, heq⟩ := Option.map_eq_some_iff.mp h
  cases heq
  rcases a.cases_of_longestFrom hfrom with ⟨p, s, -, hw, hrun, hfinal, hstuck⟩ |
    ⟨hnone, -, -⟩
  · refine ⟨s, ?_, hfinal, hstuck⟩
    rw [hw, List.append_nil, List.reverse_reverse]
    exact hrun
  · cases hnone

end CssGuard.Automaton
