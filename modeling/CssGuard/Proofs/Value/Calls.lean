import CssGuard.Proofs.Value.Tree
import Mathlib.Data.List.TakeDrop
import Mathlib.Data.Nat.Find

/-!
# Calls by counting

Where a call is closed can be told without a stack: it is the first place after its opener
at which more calls were closed than opened since. Counts of tokens add up, so that calls
cannot cross one another, and the tokens between an opener and its parenthesis, taken by
themselves, hold the same calls.

- `slice`, `Overcloses`, `IsCall`: a call, said by counting
- `depthAfter?_eq_some_iff`: how deep tokens lead into calls, by counting
- `lookup_callEnds_eq_some_iff`: the pass over the tokens finds the calls and nothing else
- `IsCall.exists_inside`, `IsCall.slice_iff`: the calls inside of a call
- `callEnds_coherent`: the matches of a value and those of the arguments of its calls
-/

namespace CssGuard

/-! ## Parts of a list -/

/-- The tokens from one place up to another, which is not included. -/
def slice (ts : List Token) (first last : Nat) : List Token :=
  (ts.take last).drop first

variable {ts : List Token} {i j k m : Nat}

theorem length_slice (h : k ≤ ts.length) : (slice ts i k).length = k - i := by
  rw [slice, List.length_drop, List.length_take, Nat.min_eq_left h]

theorem slice_eq_nil (h : k ≤ i) : slice ts i k = [] := by
  rw [slice, List.drop_eq_nil_iff, List.length_take]
  omega

theorem slice_append (hik : i ≤ k) (hkm : k ≤ m) :
    slice ts i k ++ slice ts k m = slice ts i m := by
  obtain ⟨a, rfl⟩ := Nat.exists_eq_add_of_le hik
  obtain ⟨b, rfl⟩ := Nat.exists_eq_add_of_le hkm
  rw [slice, slice, slice, List.drop_take, List.drop_take, List.drop_take,
    ← List.drop_drop, Nat.add_sub_cancel_left, Nat.add_sub_cancel_left, Nat.add_assoc,
    Nat.add_sub_cancel_left, List.take_add]

theorem slice_succ {t : Token} (ht : ts[k]? = some t) (hik : i ≤ k) :
    slice ts i (k + 1) = slice ts i k ++ [t] := by
  have hk := (List.getElem?_eq_some_iff.mp ht).1
  rw [slice, slice, List.take_add_one, ht, Option.toList_some,
    List.drop_append_of_le_length]
  rw [List.length_take]
  omega

theorem take_slice (n : Nat) : (slice ts i k).take n = slice ts i (min (i + n) k) := by
  rw [slice, slice, List.take_drop, List.take_take]

theorem slice_slice (h : i + m ≤ j) :
    slice (slice ts i j) k m = slice ts (i + k) (i + m) := by
  rw [slice, take_slice, Nat.min_eq_left h, slice, slice, List.drop_drop]

theorem getElem?_slice (h : i + k < j) : (slice ts i j)[k]? = ts[i + k]? := by
  rw [slice, List.getElem?_drop, List.getElem?_take, if_pos h]

/-! ## Counts -/

/-- More calls are closed by the tokens than opened. -/
def Overcloses (ts : List Token) : Prop :=
  ts.countP Token.opensCall < ts.count Token.closeParen

instance : DecidablePred Overcloses :=
  fun _ => inferInstanceAs (Decidable (_ < _))

/-- A call is opened at place `i` and closed at place `j`: that is the first place after
`i` at which more calls were closed than opened since. -/
structure IsCall (ts : List Token) (i j : Nat) : Prop where
  opens : ∃ t, ts[i]? = some t ∧ t.opensCall
  lt : i < j
  lt_length : j < ts.length
  overcloses : Overcloses (slice ts (i + 1) (j + 1))
  first : ∀ k, i < k → k < j → ¬ Overcloses (slice ts (i + 1) (k + 1))

/-- A token takes one call away if it closes one, and adds one if it opens one. -/
theorem turn?_eq_some_iff {depth deep : Nat} {t : Token} :
    turn? depth t = some deep ↔
      (if t == Token.closeParen then 1 else 0) + deep =
        depth + if t.opensCall then 1 else 0 := by
  by_cases hclose : t = Token.closeParen
  · subst hclose
    have hopens : Token.opensCall Token.closeParen = false := by decide
    cases depth with
    | zero => simp [turn?, hopens]
    | succ depth => simp [turn?, hopens]; omega
  · rw [turn?_of_ne hclose, Option.some.injEq, beq_false_of_ne hclose]
    by_cases hopens : t.opensCall <;> simp [hopens, eq_comm]

/-- Tokens lead so deep into calls as more calls are opened than closed by them, if no
beginning of them closes more. -/
theorem depthAfter?_eq_some_iff {ts : List Token} : ∀ {depth deep : Nat},
    depthAfter? depth ts = some deep ↔
      (∀ n, (ts.take n).count Token.closeParen ≤ depth +
        (ts.take n).countP Token.opensCall) ∧
        ts.count Token.closeParen + deep = depth + ts.countP Token.opensCall := by
  induction ts with
  | nil =>
    intro depth deep
    simp [depthAfter?, eq_comm]
  | cons t ts ih =>
    intro depth deep
    have hcons : depthAfter? depth (t :: ts) = some deep ↔
        ∃ d, turn? depth t = some d ∧ depthAfter? d ts = some deep :=
      Option.bind_eq_some_iff
    rw [hcons, ← Nat.and_forall_add_one]
    simp only [turn?_eq_some_iff, ih, List.take_zero, List.take_succ_cons,
      List.count_cons, List.countP_cons, List.count_nil, Nat.zero_le, true_and]
    constructor
    · rintro ⟨d, hturn, hbegin, htotal⟩
      exact ⟨fun n => by have := hbegin n; omega, by omega⟩
    · rintro ⟨hbegin, htotal⟩
      have hfirst := hbegin 0
      rw [List.take_zero, List.count_nil, List.countP_nil] at hfirst
      exact ⟨depth + (if t.opensCall then 1 else 0) - if t == Token.closeParen then 1
        else 0, by omega, fun n => by have := hbegin n; omega, by omega⟩

/-! ## What the pass finds -/

theorem overcloses_append_singleton_iff {t : Token} (h : ¬ Overcloses ts) :
    Overcloses (ts ++ [t]) ↔
      t = Token.closeParen ∧ ts.count Token.closeParen = ts.countP Token.opensCall := by
  have hopens : Token.opensCall Token.closeParen = false := by decide
  unfold Overcloses at h ⊢
  rw [List.count_append, List.countP_append, List.count_singleton, List.countP_singleton]
  grind

theorem not_overcloses_of_le (h : k ≤ i) : ¬ Overcloses (slice ts i k) := by
  rw [slice_eq_nil h]
  decide

/-- Up to its end, a call closes no more than it opens. -/
theorem IsCall.not_overcloses (h : IsCall ts i j) (hk : k ≤ j) :
    ¬ Overcloses (slice ts (i + 1) k) := by
  by_cases hik : i + 1 < k
  · obtain ⟨k, rfl⟩ := Nat.exists_eq_add_one_of_ne_zero (Nat.ne_zero_of_lt hik)
    exact h.first k (by omega) (by omega)
  · exact not_overcloses_of_le (Nat.not_lt.mp hik)

/-- A call is what stands between an opener and a parenthesis, if all that is
opened inside is closed there. -/
theorem isCall_iff :
    IsCall ts i j ↔ (∃ t, ts[i]? = some t ∧ t.opensCall) ∧ i < j ∧
    ts[j]? = some Token.closeParen ∧ depthAfter? 0 (slice ts (i + 1) j) = some 0 := by
  constructor
  · intro h
    have hj := List.getElem?_eq_getElem h.lt_length
    have hover := h.overcloses
    rw [slice_succ hj h.lt,
      overcloses_append_singleton_iff (h.not_overcloses (Nat.le_refl j))] at hover
    refine ⟨h.opens, h.lt, hover.1 ▸ hj,
      depthAfter?_eq_some_iff.mpr ⟨fun n => ?_, by omega⟩⟩
    rw [take_slice, Nat.zero_add]
    exact Nat.not_lt.mp (h.not_overcloses (Nat.min_le_right ..))
  · rintro ⟨hopens, hlt, hclose, hdepth⟩
    obtain ⟨hbegin, htotal⟩ := depthAfter?_eq_some_iff.mp hdepth
    have hnot : ∀ k, k ≤ j → ¬ Overcloses (slice ts (i + 1) k) := by
      intro k hk
      by_cases hik : i + 1 < k
      · have hle := hbegin (k - (i + 1))
        rw [take_slice, Nat.add_sub_cancel' (Nat.le_of_lt hik), Nat.min_eq_left hk,
          Nat.zero_add] at hle
        exact Nat.not_lt.mpr hle
      · exact not_overcloses_of_le (Nat.not_lt.mp hik)
    refine ⟨hopens, hlt, (List.getElem?_eq_some_iff.mp hclose).1, ?_,
      fun k _ hk => hnot (k + 1) hk⟩
    rw [slice_succ hclose hlt, overcloses_append_singleton_iff (hnot j (Nat.le_refl j))]
    exact ⟨rfl, by omega⟩

theorem eq_append_of_getElem? {t : Token} (h : ts[i]? = some t) :
    ts = ts.take i ++ t :: ts.drop (i + 1) := by
  obtain ⟨hi, rfl⟩ := List.getElem?_eq_some_iff.mp h
  rw [List.getElem_cons_drop, List.take_append_drop]

/-- Nothing is found for a place behind the last token. -/
theorem lookup_callEnds_of_length_le (h : ts.length ≤ i) :
    (callEnds ts).lookup i = none := by
  have hbehind : (ts.foldl CallScan.next ⟨0, [], []⟩).IsBehind :=
    CallScan.IsBehind.foldl_next ⟨by simp, by simp⟩ ts
  rw [callEnds, List.lookup_eq_none_iff]
  intro q hq
  have hlt := hbehind.found q hq
  rw [CallScan.place_foldl_next, Nat.zero_add] at hlt
  exact bne_iff_ne.mpr (by omega)

/-- The pass over the tokens finds the calls that are closed, and nothing else. -/
theorem lookup_callEnds_eq_some_iff :
    (callEnds ts).lookup i = some j ↔ IsCall ts i j := by
  rw [isCall_iff]
  cases ht : ts[i]? with
  | none =>
    rw [lookup_callEnds_of_length_le (List.getElem?_eq_none_iff.mp ht)]
    simp
  | some t =>
    have hi := (List.getElem?_eq_some_iff.mp ht).1
    -- the token that opens the call divides the others into those
    -- before it and those after it
    have hlookup := lookup_callEnds (ts.take i) t (ts.drop (i + 1))
    rw [← eq_append_of_getElem? ht, List.length_take, Nat.min_eq_left (Nat.le_of_lt hi)]
      at hlookup
    rw [hlookup, Option.map_eq_some_iff]
    constructor
    · rintro ⟨⟨args, after⟩, hcall, rfl⟩
      obtain ⟨hopens, hrest, hdepth⟩ := callAt?_eq_some_iff.mp hcall
      have hargs : slice ts (i + 1) (i + 1 + args.length) = args := by
        rw [slice, List.drop_take, Nat.add_sub_cancel_left, hrest, List.take_left']
        rfl
      refine ⟨⟨t, rfl, hopens⟩, by omega, ?_, by rw [hargs]; exact hdepth⟩
      rw [← List.getElem?_drop, hrest, List.getElem?_append_right (Nat.le_refl _),
        Nat.sub_self]
      rfl
    · rintro ⟨⟨t', ht', hopens⟩, hlt, hclose, hdepth⟩
      cases ht'
      obtain ⟨n, rfl⟩ := Nat.exists_eq_add_of_lt hlt
      have hargs : slice ts (i + 1) (i + n + 1) = (ts.drop (i + 1)).take n := by
        rw [slice, List.drop_take]
        congr 1
        omega
      have hlength : n ≤ (ts.drop (i + 1)).length := by
        have := (List.getElem?_eq_some_iff.mp hclose).1
        rw [List.length_drop]
        omega
      rw [show i + n + 1 = i + 1 + n by omega, ← List.getElem?_drop] at hclose
      rw [hargs] at hdepth
      refine ⟨_, callAt?_eq_some_iff.mpr ⟨hopens, eq_append_of_getElem? hclose,
        hdepth⟩, ?_⟩
      rw [List.length_take, Nat.min_eq_left hlength]
      omega

/-! ## Calls inside of calls -/

theorem IsCall.unique (h : IsCall ts i j) (h' : IsCall ts i k) : j = k :=
  Option.some.inj ((lookup_callEnds_eq_some_iff.mpr h).symm.trans
    (lookup_callEnds_eq_some_iff.mpr h'))

/-- At its end, a call has closed one more than it has opened. -/
theorem IsCall.count_eq (h : IsCall ts i j) :
    (slice ts (i + 1) (j + 1)).count Token.closeParen =
    (slice ts (i + 1) (j + 1)).countP Token.opensCall + 1 := by
  obtain ⟨-, hlt, hclose, hdepth⟩ := isCall_iff.mp h
  have htotal := (depthAfter?_eq_some_iff.mp hdepth).2
  rw [slice_succ hclose hlt, List.count_append, List.countP_append]
  simpa [Token.opensCall, Token.opensParen, Token.closeParen] using htotal

/-- An opener after which more calls are closed than opened is closed there or before. -/
theorem exists_isCall {t : Token} (ht : ts[k]? = some t) (hopens : t.opensCall)
    (hlt : k < j) (hj : j < ts.length) (hover : Overcloses (slice ts (k + 1) (j + 1))) :
    ∃ m ≤ j, IsCall ts k m := by
  have hex : ∃ m, k < m ∧ Overcloses (slice ts (k + 1) (m + 1)) := ⟨j, hlt, hover⟩
  obtain ⟨hkm, hm⟩ := Nat.find_spec hex
  have hle : Nat.find hex ≤ j := Nat.find_min' hex ⟨hlt, hover⟩
  exact ⟨Nat.find hex, hle, ⟨t, ht, hopens⟩, hkm, Nat.lt_of_le_of_lt hle hj, hm,
    fun n hkn hn hover => Nat.find_min hex hn ⟨hkn, hover⟩⟩

/-- A call that is opened inside of another is closed inside of it. -/
theorem IsCall.exists_inside (h : IsCall ts i j) (hik : i < k) (hkj : k < j) {t : Token}
    (ht : ts[k]? = some t) (hopens : t.opensCall) : ∃ m < j, IsCall ts k m := by
  -- up to `k` no more was closed than opened, and one is opened there; so
  -- two more are closed after it
  have hbefore := Nat.not_lt.mp (h.not_overcloses (Nat.le_of_lt hkj))
  have htwo : (slice ts (k + 1) (j + 1)).countP Token.opensCall + 2 ≤
      (slice ts (k + 1) (j + 1)).count Token.closeParen := by
    have hne : t ≠ Token.closeParen := by
      rintro rfl
      cases hopens
    have htotal := h.count_eq
    rw [← slice_append (Nat.succ_le_succ (Nat.le_of_lt hik))
      (Nat.succ_le_succ (Nat.le_of_lt hkj)), slice_succ ht hik] at htotal
    simp only [List.count_append, List.countP_append, List.count_singleton,
      List.countP_singleton, beq_false_of_ne hne, hopens, Bool.false_eq_true, if_false,
      if_true, Nat.succ_eq_add_one] at htotal
    omega
  obtain ⟨m, hm, hcall⟩ :=
    exists_isCall ht hopens hkj h.lt_length (Nat.lt_of_succ_lt htwo)
  refine ⟨m, Nat.lt_of_le_of_ne hm ?_, hcall⟩
  -- it ends where one more is closed than opened, and at `j` there are two
  rintro rfl
  have hone := hcall.count_eq
  omega

/-- Two calls are apart, or one is inside of the other. -/
theorem IsCall.apart_or_inside (h : IsCall ts i j) (h' : IsCall ts k m) (hik : i < k) :
    j < k ∨ m < j := by
  obtain ⟨t, ht, hopens⟩ := h'.opens
  rcases Nat.lt_trichotomy k j with hkj | rfl | hjk
  · obtain ⟨m', hm', hcall⟩ := h.exists_inside hik hkj ht hopens
    exact .inr (h'.unique hcall ▸ hm')
  · obtain ⟨-, -, hclose, -⟩ := isCall_iff.mp h
    cases ht.symm.trans hclose
    cases hopens
  · exact .inl hjk

/-- Calls of a part of the tokens are calls of all of them. -/
theorem isCall_slice_of_lt (hm : i + m < j) (hj : j ≤ ts.length) :
    IsCall (slice ts i j) k m ↔ IsCall ts (i + k) (i + m) := by
  have hslice : ∀ n, n ≤ m →
      slice (slice ts i j) (k + 1) (n + 1) = slice ts (i + k + 1) (i + n + 1) :=
    fun n hn => slice_slice (by omega)
  constructor
  · intro h
    have hlt := h.lt
    refine ⟨?_, by omega, by omega, hslice m (Nat.le_refl m) ▸ h.overcloses,
      fun n hn hnm => ?_⟩
    · rw [← getElem?_slice (show i + k < j by omega)]
      exact h.opens
    · obtain ⟨n, rfl⟩ := Nat.exists_eq_add_of_le (show i ≤ n by omega)
      rw [← hslice n (by omega)]
      exact h.first n (by omega) (by omega)
  · intro h
    have hlt := h.lt
    refine ⟨?_, by omega, ?_, hslice m (Nat.le_refl m) ▸ h.overcloses, fun n hn hnm => ?_⟩
    · rw [getElem?_slice (by omega)]
      exact h.opens
    · rw [length_slice hj]
      omega
    · rw [hslice n (by omega)]
      exact h.first (i + n) (by omega) (by omega)

/-- The calls of what stands between an opener and its
parenthesis are the calls inside. -/
theorem IsCall.slice_iff (h : IsCall ts i j) :
    IsCall (slice ts (i + 1) j) k m ↔
      i + 1 + k < j ∧ IsCall ts (i + 1 + k) (i + 1 + m) := by
  have hj := Nat.le_of_lt h.lt_length
  constructor
  · intro hcall
    have hlength := hcall.lt_length
    rw [length_slice hj] at hlength
    have hlt := hcall.lt
    exact ⟨by omega, (isCall_slice_of_lt (by omega) hj).mp hcall⟩
  · rintro ⟨hk, hcall⟩
    refine (isCall_slice_of_lt ?_ hj).mpr hcall
    rcases h.apart_or_inside hcall (by omega) with hapart | hinside
    · omega
    · exact hinside

/-- For all tokens: the pass maps a place to another exactly if a call is opened at the
one and closed at the other. The calls that it finds are apart or one inside of the other.
Between the ends of a call every opener is closed, and a pass over the tokens there finds
the same calls as the pass over all. -/
theorem callEnds_coherent (ts : List Token) :
    (∀ i j, (callEnds ts).lookup i = some j ↔ IsCall ts i j) ∧
    (∀ i j i' j', (callEnds ts).lookup i = some j → (callEnds ts).lookup i' = some j' →
      i < i' → j < i' ∨ j' < j) ∧
    ∀ i j, (callEnds ts).lookup i = some j →
      (∀ k m, (callEnds (slice ts (i + 1) j)).lookup k = some m ↔
        i + 1 + k < j ∧ (callEnds ts).lookup (i + 1 + k) = some (i + 1 + m)) ∧
      ∀ k t, i < k → k < j → ts[k]? = some t → t.opensCall →
        ∃ m < j, (callEnds ts).lookup k = some m := by
  refine ⟨fun _ _ => lookup_callEnds_eq_some_iff, ?_, ?_⟩ <;>
    simp only [lookup_callEnds_eq_some_iff]
  · exact fun _ _ _ _ h h' hlt => h.apart_or_inside h' hlt
  · exact fun _ _ h =>
      ⟨fun _ _ => h.slice_iff, fun _ _ hik hkj => h.exists_inside hik hkj⟩

/-- A parenthesis that closes nothing, and openers that are not
closed around a call that is. -/
example : callEnds [")", "a(", "b(", "c(", ")", ",", ")", "d("] = [(2, 6), (3, 4)] := by
  decide

end CssGuard
