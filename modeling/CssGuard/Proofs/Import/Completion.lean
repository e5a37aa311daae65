import CssGuard.Proofs.Consultations
import CssGuard.Proofs.Import.Splice
import Mathlib.Data.List.Nodup

/-!
# When an import is complete

An import is complete when its sheet and all sheets below it were delivered. This is found
out by counting: a request waits for itself, and for those of its imports that wait for
something. When the sheet of a request ends, the count is settled there and, as far as it
comes down to nothing, at the requests above.

- `Under`, `IsComplete`: the requests below a request, and a
  request with all of them delivered
- `Session.Balanced`: the counts are what they should be, but for one that is due
- `Session.waiting_eq_zero_iff`: nothing is waited for exactly when an import is complete
- `Session.settle_cases`: what settling one count can do
- `Session.Advances`, `advances_settle`: when a text is handed on
-/

namespace CssGuard

/-! ## Complete imports -/

/-- The requests below a request, and itself. -/
inductive Under (rs : List Request) (n : Nat) : Nat → Prop
  | self : Under rs n n
  | kid {k m : Nat} {r : Request} (h : Under rs n k) (hr : rs[m]? = some r)
    (hparent : r.parent = some k) : Under rs n m

theorem Under.trans {rs : List Request} {n k m : Nat} (h : Under rs n k)
    (h' : Under rs k m) : Under rs n m := by
  induction h' with
  | self => exact h
  | kid _ hr hparent ih => exact .kid ih hr hparent

/-- The request was made, and it and all requests below it were delivered. -/
def IsComplete (rs : List Request) (n : Nat) : Prop :=
  ∀ k, Under rs n k → ∃ r, rs[k]? = some r ∧ r.isPending = false

/-- A sheet is asked for before those it imports. -/
def Later (rs : List Request) : Prop :=
  ∀ (n : Nat) (r : Request), rs[n]? = some r → ∀ p, r.parent = some p → p < n

/-- The request was made for an import of the main sheet. -/
def IsTop (rs : List Request) (n : Nat) : Prop :=
  ∃ r, rs[n]? = some r ∧ r.parent = none

namespace Session

/-! ## Counts -/

/-- How many of the imports of a sheet wait for something. -/
def openBelow (s : Session) (n : Nat) : Nat :=
  s.requests.countP fun r => r.parent = some n && r.waiting != 0

/-- A request waits for itself until it is delivered, for each of its imports that waits
for something, and, if it is the one that is due, for one thing more. -/
def Balanced (s : Session) (due : Option Nat) : Prop :=
  ∀ (n : Nat) (r : Request), s.requests[n]? = some r →
    r.waiting =
      (if r.isPending then 1 else 0) + s.openBelow n + if due = some n then 1 else 0

theorem balanced_start : Session.start.Balanced none :=
  fun _ _ h => by cases h

variable {s : Session} {n : Nat} {r : Request}

theorem waiting_ne_zero_of_isPending {due : Option Nat} (h : s.Balanced due)
    (hr : s.requests[n]? = some r) (hpending : r.isPending) : r.waiting ≠ 0 := by
  have := h n r hr
  rw [if_pos hpending] at this
  omega

/-- An import that waits for nothing makes no one wait, and neither does any below it. -/
theorem waiting_eq_zero_of_under (h : s.Balanced none) (hr : s.requests[n]? = some r)
    (hzero : r.waiting = 0) {k : Nat} (hunder : Under s.requests n k) :
    ∃ r', s.requests[k]? = some r' ∧ r'.waiting = 0 := by
  induction hunder with
  | self => exact ⟨r, hr, hzero⟩
  | @kid k m rm _ hrm hparent ih =>
    obtain ⟨rk, hrk, hk⟩ := ih
    have hnone : s.openBelow k = 0 := by
      have := h k rk hrk
      omega
    have hm := List.countP_eq_zero.mp hnone rm (List.mem_of_getElem? hrm)
    exact ⟨rm, hrm, by simpa [hparent] using hm⟩

/-- Nothing is waited for exactly when an import is complete. -/
theorem waiting_eq_zero_iff (h : s.Balanced none)
    (hlater : Later s.requests) (hr : s.requests[n]? = some r) :
    r.waiting = 0 ↔ IsComplete s.requests n := by
  constructor
  · intro hzero k hunder
    obtain ⟨r', hr', hzero'⟩ := waiting_eq_zero_of_under h hr hzero hunder
    refine ⟨r', hr', Bool.eq_false_iff.mpr fun hpending => ?_⟩
    exact waiting_ne_zero_of_isPending h hr' hpending hzero'
  · -- imports have greater numbers, so this goes from the last request to the first
    induction hm : s.requests.length - n using Nat.strongRecOn generalizing n r with
    | ind m ih =>
      intro hcomplete
      obtain ⟨r', hr', hpending⟩ := hcomplete n .self
      cases hr.symm.trans hr'
      have hbelow : s.openBelow n = 0 := by
        refine List.countP_eq_zero.mpr fun rk hrk => ?_
        obtain ⟨k, hk⟩ := List.getElem?_of_mem hrk
        by_cases hparent : rk.parent = some n
        · have hlt := hlater k rk hk n hparent
          have hlength := (List.getElem?_eq_some_iff.mp hk).1
          have hzero : rk.waiting = 0 := ih (s.requests.length - k) (by omega) hk rfl
            fun m hm => hcomplete m ((Under.kid .self hk hparent).trans hm)
          simp [hzero]
        · simp [hparent]
      rw [h n r hr, hpending, hbelow]
      rfl

/-! ## Settling the counts -/

theorem countP_modify {p : Request → Bool} {f : Request → Request}
    {rs : List Request} {n : Nat} {r : Request} (h : rs[n]? = some r) :
    (rs.modify n f).countP p + (if p r then 1 else 0) =
      rs.countP p + if p (f r) then 1 else 0 := by
  induction rs generalizing n with
  | nil => cases h
  | cons r' rs ih =>
    cases n with
    | zero =>
      cases h
      simp only [List.modify_zero_cons, List.countP_cons]
      omega
    | succ n =>
      have := ih h
      simp only [List.modify_succ_cons, List.countP_cons]
      omega

theorem getElem?_modify_self {f : Request → Request} (hr : s.requests[n]? = some r) :
    (s.modify n f).requests[n]? = some (f r) := by
  simp [modify, hr]

theorem getElem?_modify_of_ne {f : Request → Request} {k : Nat} (hk : n ≠ k) :
    (s.modify n f).requests[k]? = s.requests[k]? := by
  simp [modify, hk]

/-- What a request waits for is counted at its parent. -/
theorem openBelow_modify {f : Request → Request} (hparent : (f r).parent = r.parent)
    (hr : s.requests[n]? = some r) (k : Nat) :
    (s.modify n f).openBelow k + (if r.parent = some k ∧ r.waiting ≠ 0 then 1 else 0) =
      s.openBelow k + if r.parent = some k ∧ (f r).waiting ≠ 0 then 1 else 0 := by
  have h := countP_modify (p := fun r => r.parent = some k && r.waiting != 0) (f := f) hr
  simpa [openBelow, modify, hparent] using h

/-- One thing less is waited for at the request that is due. If nothing is left,
something is due at its parent. -/
theorem Balanced.settled (h : s.Balanced (some n)) (hr : s.requests[n]? = some r) :
    (s.modify n fun r => { r with waiting := r.waiting - 1 }).Balanced
      (if r.waiting = 1 then r.parent else none) := by
  have hwaiting := h n r hr
  rw [if_pos rfl] at hwaiting
  intro k rk hk
  -- what is due at the parent is what is no longer counted there
  have hdue : s.openBelow k =
      (s.modify n fun r => { r with waiting := r.waiting - 1 }).openBelow k +
      if (if r.waiting = 1 then r.parent else none) = some k then 1 else 0 := by
    have hbelow :=
      openBelow_modify (f := fun r => { r with waiting := r.waiting - 1 }) rfl hr k
    grind
  by_cases hnk : n = k
  · subst hnk
    rw [getElem?_modify_self hr] at hk
    cases hk
    change r.waiting - 1 = (if r.isPending then 1 else 0) + _ + _
    omega
  · have hold := h k rk (getElem?_modify_of_ne hnk ▸ hk)
    rw [if_neg (fun heq => hnk (Option.some.inj heq))] at hold
    omega

theorem later_modify {f : Request → Request} (hf : ∀ r, (f r).parent = r.parent)
    (h : Later s.requests) : Later (s.modify n f).requests := by
  intro k rk hk p hp
  rw [modify, List.getElem?_modify] at hk
  obtain ⟨r, hr, rfl⟩ := Option.map_eq_some_iff.mp hk
  refine h k r hr p ?_
  split at hp
  · rwa [hf] at hp
  · exact hp

theorem Balanced.waiting_ne_zero (h : s.Balanced (some n))
    (hr : s.requests[n]? = some r) : r.waiting ≠ 0 := by
  have := h n r hr
  rw [if_pos rfl] at this
  omega

/-- A count that is due is settled in one of three ways: something is still waited for,
an import of the main sheet waits for nothing any more and is handed on, or the count
of the parent is due next. -/
theorem settle_cases (hlater : Later s.requests) (h : s.Balanced (some n))
    (hr : s.requests[n]? = some r) :
    let s' := s.modify n fun r => { r with waiting := r.waiting - 1 }
    (r.waiting ≠ 1 ∧ s'.Balanced none ∧ settle n s = pure s') ∨
    (r.waiting = 1 ∧ r.parent = none ∧ s'.Balanced none ∧
      settle n s = ⟨s', [.continued (s'.slotText n) (s'.pending > 0)]⟩) ∨
    ∃ parent < n, r.waiting = 1 ∧ r.parent = some parent ∧ Later s'.requests ∧
      s'.Balanced (some parent) ∧ (∃ above, s'.requests[parent]? = some above) ∧
      settle n s = settle parent s' := by
  intro s'
  have hr' : s'.requests[n]? = some { r with waiting := r.waiting - 1 } :=
    getElem?_modify_self hr
  have hpositive := h.waiting_ne_zero hr
  have hsettled : s'.Balanced (if r.waiting = 1 then r.parent else none) := h.settled hr
  rw [settle, show (s.modify n fun r => { r with waiting := r.waiting -
    1 }).requests[n]? = _ from hr']
  dsimp only
  by_cases hone : r.waiting = 1
  · rw [if_pos hone] at hsettled
    rw [if_neg (by omega)]
    cases hparent : r.parent with
    | none => exact .inr (.inl ⟨hone, rfl, hparent ▸ hsettled, rfl⟩)
    | some parent =>
      -- a sheet was asked for before those it imports, so the parent is above
      have hlt : parent < n := hlater n r hr parent hparent
      have hlength := Nat.lt_trans hlt (List.getElem?_eq_some_iff.mp hr').1
      refine .inr (.inr ⟨parent, hlt, hone, rfl, later_modify (fun _ => rfl) hlater,
        hparent ▸ hsettled, ⟨_, List.getElem?_eq_getElem hlength⟩, if_pos hlt⟩)
  · rw [if_neg hone] at hsettled
    exact .inl ⟨hone, hsettled, if_pos (by omega)⟩

/-- The import is one of the main sheet, and nothing is waited for any more. -/
def Finished (s : Session) (n : Nat) : Prop :=
  ∃ r, s.requests[n]? = some r ∧ r.parent = none ∧ r.waiting = 0

/-- No import of the main sheet is finished by the way and nothing is handed on, or one is
finished and its text is handed on. -/
def Advances (s : Session) (trace : Trace) (s' : Session) : Prop :=
  trace.continuations = [] ∧ (∀ k, s'.Finished k ↔ s.Finished k) ∨
  ∃ n, trace.continuations = [(s'.slotText n, decide (0 < s'.pending))] ∧ ¬ s.Finished n ∧
    ∀ k, s'.Finished k ↔ s.Finished k ∨ k = n

theorem Advances.congr_left {s s' s'' : Session} {trace : Trace}
    (h : s.Advances trace s'') (hfinished : ∀ k, s.Finished k ↔ s'.Finished k) :
    s'.Advances trace s'' := by
  rcases h with ⟨htrace, h⟩ | ⟨n, htrace, hnew, h⟩
  · exact .inl ⟨htrace, fun k => (h k).trans (hfinished k)⟩
  · exact .inr ⟨n, htrace, fun hn => hnew ((hfinished n).mpr hn),
      fun k => (h k).trans (or_congr_left (hfinished k))⟩

/-- Which imports are finished depends on a changed request only if it
is one of the main sheet. -/
theorem finished_modify {f : Request → Request} (hr : s.requests[n]? = some r)
    (hf : (f r).parent = none ∧ (f r).waiting = 0 ↔ r.parent = none ∧ r.waiting = 0)
    (k : Nat) : (s.modify n f).Finished k ↔ s.Finished k := by
  unfold Finished
  by_cases hnk : n = k
  · subst hnk
    simp only [getElem?_modify_self hr, hr, Option.some.injEq, exists_eq_left', hf]
  · rw [getElem?_modify_of_ne hnk]

/-- Settling a count that is due balances all of them, and a text is handed
on when an import of the main sheet is finished by it. The induction goes
up to the requests above. -/
theorem advances_settle (number : Nat) (s : Session) (hlater : Later s.requests)
    (h : s.Balanced (some number)) {r : Request} (hr : s.requests[number]? = some r) :
    (settle number s).value.Balanced none ∧
      s.Advances (settle number s).trace (settle number s).value := by
  induction number using Nat.strongRecOn generalizing s r with
  | ind number ih =>
    have hpositive := h.waiting_ne_zero hr
    rcases settle_cases hlater h hr with ⟨hmore, hbalanced, heq⟩ |
      ⟨hone, hparent, hbalanced, heq⟩ | ⟨parent, hlt, -, hparent, hlater', hdue,
        ⟨above, habove⟩, heq⟩
    · rw [heq]
      refine ⟨hbalanced, .inl ⟨rfl, finished_modify hr ?_⟩⟩
      dsimp only
      omega
    · rw [heq]
      refine ⟨hbalanced, .inr ⟨number, rfl, ?_, fun k => ?_⟩⟩
      · rintro ⟨r', hr', -, hzero⟩
        cases hr.symm.trans hr'
        exact hpositive hzero
      · by_cases hk : number = k
        · subst hk
          exact iff_of_true ⟨_, getElem?_modify_self hr, hparent,
            by simp [hone]⟩ (.inr rfl)
        · unfold Finished
          rw [getElem?_modify_of_ne hk]
          exact (or_iff_left fun heq => hk heq.symm).symm
    · obtain ⟨hrest, hadvances⟩ := ih parent hlt _ hlater' hdue habove
      rw [heq]
      -- a request with a parent is none of the main sheet's
      refine ⟨hrest, hadvances.congr_left (finished_modify hr ?_)⟩
      dsimp only
      rw [hparent]
      exact iff_of_false (fun h => by cases h.1) fun h => by cases h.1

/-- A request whose output is there has a count that is due. -/
theorem balanced_delivered (h : s.Balanced none) (hr : s.requests[n]? = some r)
    (hpending : r.isPending) (parts : List Part) :
    (s.modify n fun r => { r with delivered := some parts }).Balanced (some n) := by
  intro k rk hk
  have hbelow :=
    openBelow_modify (f := fun r => { r with delivered := some parts }) rfl hr k
  rw [← Nat.add_right_cancel hbelow.symm]
  by_cases hnk : n = k
  · subst hnk
    rw [getElem?_modify_self hr] at hk
    cases hk
    have hold := h n r hr
    rw [if_pos hpending, if_neg (by simp)] at hold
    rw [if_pos rfl]
    change r.waiting = 0 + s.openBelow n + 1
    omega
  · have hold := h k rk (getElem?_modify_of_ne hnk ▸ hk)
    rw [if_neg (fun heq => hnk (Option.some.inj heq))]
    exact hold

/-- The end of the sheet of a request. -/
theorem advances_close (hlater : Later s.requests) (h : s.Balanced none)
    (hr : s.requests[n]? = some r) (hpending : r.isPending) (parts : List Part) :
    (s.close n parts).value.Balanced none ∧
      s.Advances (s.close n parts).trace (s.close n parts).value := by
  obtain ⟨hbalanced, hadvances⟩ := advances_settle n
    { s.modify n fun r => { r with delivered := some parts } with
      pending := s.pending - 1 }
    (later_modify (fun _ => rfl) hlater) (balanced_delivered h hr hpending parts)
    (getElem?_modify_self hr)
  exact ⟨hbalanced, hadvances.congr_left (finished_modify hr Iff.rfl)⟩

/-- A sheet that is being read waits for one more import. -/
theorem balanced_awaitMore (h : s.Balanced none) {parent : Option Nat}
    (hparent : ∀ p, parent = some p → ∃ r, s.requests[p]? = some r ∧ r.isPending) :
    (∀ (k : Nat) (r : Request), (s.awaitMore parent).requests[k]? = some r →
      r.waiting = (if r.isPending then 1 else 0) + s.openBelow k +
        if parent = some k then 1 else 0) ∧
    (∀ k, (s.awaitMore parent).openBelow k = s.openBelow k) ∧
    ∀ k, (s.awaitMore parent).Finished k ↔ s.Finished k := by
  cases parent with
  | none => exact ⟨h, fun _ => rfl, fun _ => Iff.rfl⟩
  | some p =>
    obtain ⟨rp, hrp, hpending⟩ := hparent p rfl
    have hne := waiting_ne_zero_of_isPending h hrp hpending
    refine ⟨fun k r hr => ?_, fun k => ?_, finished_modify hrp ?_⟩
    · by_cases hpk : p = k
      · subst hpk
        rw [awaitMore, getElem?_modify_self hrp] at hr
        cases hr
        have hold := h p rp hrp
        rw [if_neg (Option.some_ne_none p).symm] at hold
        rw [if_pos rfl]
        change rp.waiting + 1 = (if rp.isPending then 1 else 0) + _ + 1
        omega
      · rw [if_neg (fun heq => hpk (Option.some.inj heq))]
        exact h k r (getElem?_modify_of_ne hpk ▸ hr)
    · have hbelow :=
        openBelow_modify (f := fun r => { r with waiting := r.waiting + 1 }) rfl hrp k
      have hsome : ∀ w : Nat, w ≠ 0 → (rp.parent = some k ∧ w ≠ 0 ↔ rp.parent = some k) :=
        fun _ hw => and_iff_left hw
      simp only [hsome _ hne, hsome _ (Nat.succ_ne_zero rp.waiting)] at hbelow
      exact Nat.add_right_cancel hbelow
    · simp [hne]

/-- A new request of a sheet that is being read waits for itself,
and its sheet waits for it. -/
theorem balanced_register (hlater : Later s.requests) (h : s.Balanced none)
    {parent : Option Nat}
    (hparent : ∀ p, parent = some p → ∃ r, s.requests[p]? = some r ∧ r.isPending)
    (levels : Nat)
    (q : ImportRequest) :
    (s.register parent levels q).Balanced none ∧
      ∀ k, (s.register parent levels q).Finished k ↔ s.Finished k := by
  obtain ⟨hwaiting, hbelow, hfinished⟩ := balanced_awaitMore h hparent
  have hlength : (s.awaitMore parent).requests.length = s.requests.length := by
    rw [← length_records, records_awaitMore, length_records]
  have hcount : ∀ k, (s.register parent levels q).openBelow k =
      s.openBelow k + if parent = some k then 1 else 0 := by
    intro k
    rw [← hbelow k]
    simp [openBelow, register, List.countP_append, List.countP_singleton]
  constructor
  · intro k r hr
    rw [hcount, if_neg (Option.some_ne_none k).symm]
    rcases getElem?_concat_cases hr with hr | ⟨rfl, rfl⟩
    · exact (hwaiting k r hr).trans (Nat.add_assoc ..)
    · -- only sheets of requests made before wait for imports
      have hbelow : s.openBelow s.requests.length = 0 := by
        refine List.countP_eq_zero.mpr fun rk hrk => ?_
        obtain ⟨k, hk⟩ := List.getElem?_of_mem hrk
        have hlt := (List.getElem?_eq_some_iff.mp hk).1
        have hne : rk.parent ≠ some s.requests.length :=
          fun hp => Nat.lt_asymm hlt (hlater k rk hk _ hp)
        simp [hne]
      have hne : parent ≠ some s.requests.length := fun hp => by
        obtain ⟨r, hr, -⟩ := hparent _ hp
        exact Nat.lt_irrefl _ (List.getElem?_eq_some_iff.mp hr).1
      rw [hlength, hbelow, if_neg hne]
      rfl
  · intro k
    refine Iff.trans ⟨?_, ?_⟩ (hfinished k)
    · rintro ⟨r, hr, hp, hzero⟩
      rcases getElem?_concat_cases hr with hr | ⟨-, rfl⟩
      · exact ⟨r, hr, hp, hzero⟩
      · cases hzero
    · rintro ⟨r, hr, h⟩
      exact ⟨r, List.getElem?_append_left (List.getElem?_eq_some_iff.mp hr).1 ▸ hr, h⟩

end Session

end CssGuard
