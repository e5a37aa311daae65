import CssGuard.Proofs.Import.Continuations
import CssGuard.Proofs.Import.Requests

/-!
# Counts and deliveries

Between the calls the counts of a session say which requests were delivered. Inside a call
they do not: the sheet of a request can be half read, and the counts above it are put
right only when it ends. A count is lowered only where it is not zero, so that none of
them is ever too great for that.

- `delivered`: a text was delivered to a request
- `Session.settleChecked`, `Session.closeChecked`: counts are lowered, if they can be
- `Session.Counts.closeChecked_eq`: in a balanced session they can
- `counts_eq_deliveries`: the counts between the calls
-/

namespace CssGuard

variable {ctx : SheetContext} {levels : Nat} {css : Text} {a : Assembling}
  {log : List Delivery} {trace : Trace}

/-! ## Deliveries -/

/-- A text was delivered to the request. -/
def delivered (log : List Delivery) (number : Nat) : Bool :=
  log.any fun d => d.1 = number

theorem isSome_firstText (log : List Delivery) (number : Nat) :
    (firstText log number).isSome = delivered log number := by
  rw [firstText, Option.isSome_map, List.isSome_find?, delivered]

/-- When no sheet is being read, the requests that are pending are those that
no text was delivered to. -/
theorem Tracks.isPending_eq (h : Tracks ctx levels css a log)
    (hidle : a.sheets = []) {n : Nat} {r : Request}
    (hr : a.session.requests[n]? = some r) : r.isPending = !delivered log n := by
  have hrecord := Session.getElem?_records hr
  rw [Request.isPending, ← isSome_firstText]
  cases hd : r.delivered with
  | none =>
    have hfree : some n ∉ a.owners := by
      rw [Assembling.owners, hidle]
      exact List.not_mem_nil
    rw [(h.untouched n _ hrecord hd hfree).1]
    rfl
  | some parts =>
    obtain ⟨text, htext, -⟩ := h.finished n _ parts hrecord hd
    rw [htext]
    rfl

/-- A count over a list as a count over its places. -/
theorem countP_eq_countP_range {α : Type} {p : α → Bool} {q : Nat → Bool} {list : List α}
    (h : ∀ n x, list[n]? = some x → p x = q n) :
    list.countP p = (List.range list.length).countP q := by
  induction list using List.reverseRecOn with
  | nil => rfl
  | append_singleton list x ih =>
    have hold : ∀ n y, list[n]? = some y → p y = q n := fun n y hy =>
      h n y (List.getElem?_append_left (List.getElem?_eq_some_iff.mp hy).1 ▸ hy)
    have hlast : p x = q list.length := h _ x List.getElem?_concat_length
    rw [List.countP_append, List.length_append, List.length_singleton, List.range_succ,
      List.countP_append, ih hold, List.countP_singleton, List.countP_singleton, hlast]

/-! ## No count falls below zero -/

namespace Session

/-- Counts one thing less to wait for at a request and at those above it that are complete
with it, if something is waited for at each of them. -/
def settleChecked (number : Nat) (s : Session) : Option Session :=
  match s.requests[number]? with
  | none => none
  | some r =>
    if r.waiting = 0 then none
    else
      let s := s.modify number fun r => { r with waiting := r.waiting - 1 }
      if r.waiting ≠ 1 then some s
      else
        match r.parent with
        | none => some s
        | some parent => if parent < number then settleChecked parent s else none
termination_by number

/-- Delivers the output of a sheet, if a request is pending and
all counts can be lowered. -/
def closeChecked (s : Session) (number : Nat) (parts : List Part) : Option Session :=
  if s.pending = 0 then none
  else
    let s := s.modify number fun r => { r with delivered := some parts }
    settleChecked number { s with pending := s.pending - 1 }

variable {s : Session} {n : Nat} {r : Request}

/-- All counts can be lowered that are due. The induction goes
up to the requests above. -/
theorem settleChecked_eq (number : Nat) (s : Session) (hlater : Later s.requests)
    (h : s.Balanced (some number)) {r : Request} (hr : s.requests[number]? = some r) :
    settleChecked number s = some (settle number s).value := by
  induction number using Nat.strongRecOn generalizing s r with
  | ind number ih =>
    rw [settleChecked, hr]
    dsimp only
    rw [if_neg (h.waiting_ne_zero hr)]
    rcases settle_cases hlater h hr with ⟨hmore, -, heq⟩ | ⟨hone, hparent, -, heq⟩ |
      ⟨parent, hlt, hone, hparent, hlater', hdue, ⟨above, habove⟩, heq⟩
    · rw [if_pos hmore, heq]
      rfl
    · rw [if_neg (not_ne_iff.mpr hone), hparent, heq]
    · rw [if_neg (not_ne_iff.mpr hone), hparent, heq]
      dsimp only
      rw [if_pos hlt]
      exact ih parent hlt _ hlater' hdue habove

/-- When the sheet of a pending request ends, all counts can be lowered. -/
theorem Counts.closeChecked_eq (h : s.Counts) (hlater : Later s.requests)
    (hr : s.requests[n]? = some r) (hpending : r.isPending) (parts : List Part) :
    s.closeChecked n parts = some (s.close n parts).value := by
  have hsome : s.pending ≠ 0 := fun hzero =>
    Bool.false_ne_true
      ((h.pending_eq_zero_iff.mp hzero r (List.mem_of_getElem? hr)).symm.trans hpending)
  rw [closeChecked, if_neg hsome]
  exact settleChecked_eq n _ (later_modify (fun _ => rfl) hlater)
    (balanced_delivered h.balanced hr hpending parts) (getElem?_modify_self hr)

end Session

/-! ## Counts between the calls -/

/-- What is pending, counted by the deliveries. -/
theorem Tracks.pending_eq (h : Tracks ctx levels css a log) (hcounts : a.session.Counts)
    (hidle : a.sheets = []) :
    a.session.pending =
      (List.range a.session.requests.length).countP fun n => !delivered log n := by
  rw [hcounts.pending, Session.records, List.countP_map]
  refine countP_eq_countP_range fun n r hr => ?_
  change r.isPending = _
  exact h.isPending_eq hidle hr

theorem Tracks.isComplete_iff (h : Tracks ctx levels css a log)
    (hidle : a.sheets = []) {n : Nat} (hn : n < a.session.requests.length) :
    IsComplete a.session.requests n ↔
      ∀ k, Under a.session.requests n k → delivered log k := by
  refine forall₂_congr fun k hk => ?_
  obtain ⟨r, hr⟩ : ∃ r, a.session.requests[k]? = some r := by
    cases hk with
    | self => exact ⟨_, List.getElem?_eq_getElem hn⟩
    | kid _ hr _ => exact ⟨_, hr⟩
  simp [hr, h.isPending_eq hidle hr]

/-- In every run, with deliveries at any moments, in any order and any number of times:
when a sheet ends, no count is lowered below zero. Between the calls so many requests are
pending as no text was delivered to, and more is to come exactly if there is one; each
request waits for itself until a text is delivered to it, and for those of its imports
that wait for something. So it waits for nothing exactly when texts were delivered to it
and to all requests below it. -/
theorem counts_eq_deliveries (h : Reaches ctx (.initial ctx levels css) log trace a) :
    (∀ number context state others,
      a.sheets = ⟨some number, context, state, []⟩ :: others →
      a.session.closeChecked number state.parts =
        some (a.session.close number state.parts).value) ∧
    (a.sheets = [] →
      a.session.requests.length = trace.requests.length ∧
      a.session.pending = (List.range trace.requests.length).countP
        (fun n => !delivered log n) ∧
      (a.moreToCome ↔ ∃ n < trace.requests.length, ¬ delivered log n) ∧
      ∀ n r, a.session.requests[n]? = some r →
        r.waiting = (if delivered log n then 0 else 1) + a.session.openBelow n ∧
        (r.waiting = 0 ↔ ∀ k, Under a.session.requests n k → delivered log k)) := by
  have htracks := tracks_of_reaches h
  have hcounts := (accounts_of_reaches h).1
  have hlength : trace.requests.length = a.session.requests.length := by
    rw [(requested_of_reaches h).uris, List.length_map, Session.length_records]
  refine ⟨fun number context state others hsheets => ?_, fun hidle => ?_⟩
  · have howner : some number ∈ a.owners := by
      rw [Assembling.owners, hsheets]
      exact List.mem_cons_self ..
    obtain ⟨r, hr, hpending⟩ := htracks.isPending_of_mem_owners howner
    exact hcounts.closeChecked_eq htracks.later hr hpending _
  · have hpending := htracks.pending_eq hcounts hidle
    rw [hlength]
    refine ⟨rfl, hpending, ?_, fun n r hr => ⟨?_, ?_⟩⟩
    · rw [Assembly.moreToCome, decide_eq_true_iff, gt_iff_lt, hpending,
        List.countP_pos_iff]
      simp
    · have hwaiting := hcounts.balanced n r hr
      rw [if_neg (Option.some_ne_none n).symm, htracks.isPending_eq hidle hr] at hwaiting
      rw [hwaiting]
      cases delivered log n <;> rfl
    · rw [Session.waiting_eq_zero_iff hcounts.balanced htracks.later hr]
      exact htracks.isComplete_iff hidle (List.getElem?_eq_some_iff.mp hr).1

/-- The sheet `a` was delivered at once and waits for its import
`b`, which waits for itself. -/
theorem counts_eq_deliveries_nested :
    ∃ log trace a,
      Reaches promptContext.sheet
        (.initial promptContext.sheet 2 "@import 'a' screen;") log trace a ∧
      a.sheets = [] ∧
      a.session.requests.map Request.waiting = [1, 1] ∧ a.session.pending = 1 ∧
      (∃ n < trace.requests.length, ¬ delivered log n) ∧
      ∀ n r, a.session.requests[n]? = some r →
        r.waiting = (if delivered log n then 0 else 1) + a.session.openBelow n ∧
        (r.waiting = 0 ↔ ∀ k, Under a.session.requests n k → delivered log k) := by
  have hcounts :
      (Assembly.begin promptContext 2 "@import 'a' screen;").value.session.requests.map
        Request.waiting = [1, 1] ∧
      (Assembly.begin promptContext 2 "@import 'a' screen;").value.session.pending =
        1 := by
    decide +kernel
  obtain ⟨log, trace, -, h⟩ := reaches_begin promptContext 2 "@import 'a' screen;"
  obtain ⟨-, -, hmore, hwaiting⟩ := (counts_eq_deliveries h).2 rfl
  refine ⟨log, trace, _, h, rfl, hcounts.1, hcounts.2, hmore.mp ?_, hwaiting⟩
  rw [Assembly.moreToCome, hcounts.2]
  rfl

end CssGuard
