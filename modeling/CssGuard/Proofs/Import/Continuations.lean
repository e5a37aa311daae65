import CssGuard.Proofs.Import.Completion

/-!
# When the texts of imports are handed on

The text of an import of the main sheet is handed on once, when the last sheet below it
was read, and it is final. While the main sheet is still being read nothing is final
about the number of imports.

- `Session.Counts`: the counts of a session are right
- `Step.advances`: what a step hands on
- `Accounts`: what was handed on between two moments
- `continuations_eq_complete`: in every run the texts of the
  complete imports are handed on
- `continuations_after_last`: what can still come when no request is open
-/

namespace CssGuard

variable {ctx : SheetContext} {levels : Nat} {css : Text} {a b c : Assembling}
  {log log' : List Delivery} {trace trace' : Trace}

/-! ## Counts in a run -/

/-- What is known of the counts of a session at any moment. -/
structure Session.Counts (s : Session) : Prop where
  balanced : s.Balanced none
  pending : s.pending = s.records.countP Request.isPending

theorem counts_start : Session.start.Counts where
  balanced := Session.balanced_start
  pending := rfl

namespace Session

variable {s : Session}

theorem Counts.close (h : s.Counts) (hlater : Later s.requests) {n : Nat} {r : Request}
    (hr : s.requests[n]? = some r) (hpending : r.isPending) (parts : List Part) :
    (s.close n parts).value.Counts where
  balanced := (advances_close hlater h.balanced hr hpending parts).1
  pending := by
    have hcount := countP_modify (p := Request.isPending)
      (f := fun r => { r with delivered := some parts }) (getElem?_records hr)
    rw [if_pos (show Request.isPending { r with waiting := 0 } from hpending),
      if_neg (by exact Bool.false_ne_true)] at hcount
    rw [records_close, delivering, Session.close, pending_settle]
    change s.pending - 1 = _
    rw [h.pending]
    omega

theorem pending_awaitMore (s : Session) (parent : Option Nat) :
    (s.awaitMore parent).pending = s.pending := by
  cases parent <;> rfl

theorem Counts.register (h : s.Counts) (hlater : Later s.requests) {parent : Option Nat}
    (hparent : ∀ p, parent = some p → ∃ r, s.requests[p]? = some r ∧ r.isPending)
    (levels : Nat) (q : ImportRequest) : (s.register parent levels q).Counts where
  balanced := (balanced_register hlater h.balanced hparent levels q).1
  pending := by
    rw [records_register, List.countP_append, ← h.pending, ← pending_awaitMore s parent]
    rfl

/-- No request is pending exactly when all were delivered. -/
theorem Counts.pending_eq_zero_iff (h : s.Counts) :
    s.pending = 0 ↔ ∀ r ∈ s.requests, r.isPending = false := by
  rw [h.pending, List.countP_eq_zero, records, List.forall_mem_map]
  exact forall₂_congr fun r _ => (Bool.eq_false_iff (b := r.isPending)).symm

end Session

theorem Tracks.later (h : Tracks ctx levels css a log) : Later a.session.requests :=
  fun n _ hr p hp => h.orderly.later n _ (Session.getElem?_records hr) p hp

/-- The request whose sheet is being read is pending. -/
theorem Tracks.isPending_of_mem_owners (h : Tracks ctx levels css a log) {n : Nat}
    (hn : some n ∈ a.owners) : ∃ r, a.session.requests[n]? = some r ∧ r.isPending := by
  obtain ⟨sheet, hsheet, howner⟩ := List.mem_map.mp hn
  have htracks := h.reading sheet hsheet
  have hcontext := htracks.context
  rw [howner] at hcontext
  obtain ⟨r, hr, -⟩ := Option.map_eq_some_iff.mp hcontext
  obtain ⟨w, hw⟩ := Session.exists_of_getElem?_records hr
  refine ⟨_, hw, ?_⟩
  change r.delivered.isNone
  rw [htracks.undelivered n howner r hr]
  rfl

theorem Traced.Asks.continuations_eq_nil {α : Type} {Q : Text → Text → Prop}
    {x : Traced α} (h : x.Asks Q) : x.trace.continuations = [] := by
  refine List.filterMap_eq_nil_iff.mpr fun n hn => ?_
  have hquestion := h n hn
  cases n with
  | continued => cases hquestion
  | _ => rfl

theorem continuations_step (state : SheetState) (context : SheetContext) (e : Event) :
    (state.step context e).trace.continuations = [] :=
  Traced.Asks.continuations_eq_nil (Q := fun _ _ => True)
    (asks_step state e (fun _ _ _ => trivial) fun _ _ _ => trivial)

theorem continuations_append (trace trace' : Trace) :
    Trace.continuations (trace ++ trace') = trace.continuations ++ trace'.continuations :=
  List.filterMap_append

/-- A step keeps the counts right, and a text is handed on when an import of the
main sheet is finished by it. -/
theorem Step.advances (hstep : Step ctx a log' trace b)
    (htracks : Tracks ctx levels css a log) (h : a.session.Counts) :
    b.session.Counts ∧ a.session.Advances trace b.session := by
  have hsame : ∀ {t : Trace}, t.continuations = [] → a.session.Advances t a.session :=
    fun ht => .inl ⟨ht, fun _ => Iff.rfl⟩
  cases hstep with
  | issue => exact ⟨h, hsame rfl⟩
  | event => exact ⟨h, hsame (continuations_step ..)⟩
  | @request parts session owner context state e rest others r =>
    have hparent : ∀ p, owner = some p → ∃ r, session.requests[p]? = some r ∧
        r.isPending :=
      fun p hp => htracks.isPending_of_mem_owners (hp ▸ List.mem_cons_self ..)
    refine ⟨h.register htracks.later hparent _ r, .inl ⟨?_, ?_⟩⟩
    · rw [continuations_append, continuations_step]
      rfl
    · exact (Session.balanced_register htracks.later h.balanced hparent _ r).2
  | mainEnd => exact ⟨h, hsame rfl⟩
  | close =>
    obtain ⟨r, hr, hpending⟩ := htracks.isPending_of_mem_owners (List.mem_cons_self ..)
    exact ⟨h.close htracks.later hr hpending _,
      (Session.advances_close htracks.later h.balanced hr hpending _).2⟩
  | deliver => exact ⟨h, hsame (asks_lex (Q := fun _ _ => True) _).continuations_eq_nil⟩
  | again => exact ⟨h, hsame rfl⟩

/-! ## Final texts -/

/-- What is below a request does not depend on what is waited for. -/
theorem under_records {s : Session} {n k : Nat} :
    Under s.records n k ↔ Under s.requests n k := by
  constructor <;> intro h
  · induction h with
    | self => exact .self
    | kid _ hr hparent ih =>
      obtain ⟨w, hw⟩ := Session.exists_of_getElem?_records hr
      exact .kid ih hw hparent
  · induction h with
    | self => exact .self
    | kid _ hr hparent ih => exact .kid ih (Session.getElem?_records hr) hparent

theorem isComplete_records {s : Session} {n : Nat} :
    IsComplete s.records n ↔ IsComplete s.requests n := by
  constructor <;> intro h k hk
  · obtain ⟨r, hr, hpending⟩ := h k (under_records.mpr hk)
    obtain ⟨w, hw⟩ := Session.exists_of_getElem?_records hr
    exact ⟨_, hw, hpending⟩
  · obtain ⟨r, hr, hpending⟩ := h k (under_records.mp hk)
    exact ⟨_, Session.getElem?_records hr, hpending⟩

/-- An import of the main sheet is finished when it is complete. -/
theorem Tracks.finished_iff (h : Tracks ctx levels css a log) (hcounts : a.session.Counts)
    {n : Nat} :
    a.session.Finished n ↔ IsTop a.session.requests n ∧
    IsComplete a.session.requests n := by
  constructor
  · rintro ⟨r, hr, hparent, hzero⟩
    exact ⟨⟨r, hr, hparent⟩,
      (Session.waiting_eq_zero_iff hcounts.balanced h.later hr).mp hzero⟩
  · rintro ⟨⟨r, hr, hparent⟩, hcomplete⟩
    exact ⟨r, hr, hparent,
      (Session.waiting_eq_zero_iff hcounts.balanced h.later hr).mpr hcomplete⟩

/-- What was delivered stays as it is. -/
theorem Step.getElem?_records (hstep : Step ctx a log' trace b)
    (h : Tracks ctx levels css a log) {n : Nat} {r : Request}
    (hr : a.session.records[n]? = some r) (hpending : r.isPending = false) :
    b.session.records[n]? = some r := by
  cases hstep with
  | request =>
    rw [Session.records_register,
      List.getElem?_append_left (List.getElem?_eq_some_iff.mp hr).1]
    exact hr
  | @close _ session number =>
    obtain ⟨r', hr', hpending'⟩ := h.isPending_of_mem_owners (List.mem_cons_self ..)
    rw [Session.records_close, getElem?_delivering, hr, Option.map_some, if_neg]
    rintro rfl
    cases (Session.getElem?_records hr').symm.trans hr
    cases hpending.symm.trans hpending'
  | _ => exact hr

/-- The text in place of a complete import is final. The induction goes from the last
request to the first, since imports have greater numbers. -/
theorem Step.slotText_eq (hstep : Step ctx a log' trace b)
    (ha : Tracks ctx levels css a log) (hb : Tracks ctx levels css b (log ++ log'))
    {n : Nat} (hn : IsComplete a.session.records n) :
    b.session.slotText n = a.session.slotText n := by
  induction hm : a.session.records.length - n using Nat.strongRecOn generalizing n with
  | ind m ih =>
    obtain ⟨r, hr, hpending⟩ := hn n .self
    rw [hb.slotText_eq (hstep.getElem?_records ha hr hpending), ha.slotText_eq hr]
    refine Request.text_congr fun k hk => ?_
    obtain ⟨r', hr', hparent⟩ := mem_kids.mp (ha.mem_kids_of_mem_slots hr hk)
    have hlater := ha.orderly.later k r' hr' n hparent
    have hlength := (List.getElem?_eq_some_iff.mp hr').1
    exact ih (a.session.records.length - k) (by omega)
      (fun j hj => hn j ((Under.kid .self hr' hparent).trans hj)) rfl

/-! ## What is handed on in a run -/

/-- Between two moments the texts of `calls` were handed on: those of the imports finished
since, each once and in its final form. What was finished before is as it was. -/
structure Accounts (s : Session) (trace : Trace) (s' : Session) (calls : List Nat) :
    Prop where
  nodup : calls.Nodup
  mem_iff : ∀ n, n ∈ calls ↔ s'.Finished n ∧ ¬ s.Finished n
  kept : ∀ n, s.Finished n → s'.Finished n ∧ s'.slotText n = s.slotText n
  texts : trace.continuations.map Prod.fst = calls.map s'.slotText

theorem accounts_refl (s : Session) : Accounts s [] s [] where
  nodup := List.nodup_nil
  mem_iff _ := iff_of_false List.not_mem_nil fun h => h.2 h.1
  kept _ h := ⟨h, rfl⟩
  texts := rfl

theorem Accounts.trans {s s' s'' : Session} {calls calls' : List Nat}
    (h : Accounts s trace s' calls) (h' : Accounts s' trace' s'' calls') :
    Accounts s (trace ++ trace') s'' (calls ++ calls') where
  nodup := by
    refine h.nodup.append h'.nodup fun n hn hn' => ?_
    exact ((h'.mem_iff n).mp hn').2 ((h.mem_iff n).mp hn).1
  mem_iff n := by
    rw [List.mem_append, h.mem_iff, h'.mem_iff]
    constructor
    · rintro (⟨hs', hs⟩ | ⟨hs'', hs'⟩)
      · exact ⟨(h'.kept n hs').1, hs⟩
      · exact ⟨hs'', fun hs => hs' (h.kept n hs).1⟩
    · rintro ⟨hs'', hs⟩
      by_cases hs' : s'.Finished n
      · exact .inl ⟨hs', hs⟩
      · exact .inr ⟨hs'', hs'⟩
  kept n hs := by
    obtain ⟨hs', htext⟩ := h.kept n hs
    obtain ⟨hs'', htext'⟩ := h'.kept n hs'
    exact ⟨hs'', htext'.trans htext⟩
  texts := by
    rw [continuations_append, List.map_append, List.map_append, h.texts, h'.texts]
    congr 1
    refine List.map_congr_left fun n hn => ?_
    exact (h'.kept n ((h.mem_iff n).mp hn).1).2.symm

theorem Session.Advances.accounts {s s' : Session} (h : s.Advances trace s')
    (hkept : ∀ n, s.Finished n → s'.slotText n = s.slotText n) :
    ∃ calls, Accounts s trace s' calls := by
  rcases h with ⟨htrace, h⟩ | ⟨n, htrace, hnew, h⟩
  · refine ⟨[], List.nodup_nil, fun k => ?_, fun k hk => ⟨(h k).mpr hk, hkept k hk⟩, ?_⟩
    · exact iff_of_false List.not_mem_nil fun hk => hk.2 ((h k).mp hk.1)
    · rw [htrace]
      rfl
  · refine ⟨[n], List.nodup_singleton n, fun k => ?_,
      fun k hk => ⟨(h k).mpr (.inl hk), hkept k hk⟩, ?_⟩
    · rw [List.mem_singleton, h]
      constructor
      · rintro rfl
        exact ⟨.inr rfl, hnew⟩
      · rintro ⟨hk | rfl, hk'⟩
        · exact absurd hk hk'
        · rfl
    · rw [htrace]
      rfl

/-- A run keeps the counts right, and what is handed on in it are the texts of the
imports that are finished in it. -/
theorem Reaches.accounts (h : Reaches ctx a log' trace b)
    (ha : Tracks ctx levels css a log) (hcounts : a.session.Counts) :
    b.session.Counts ∧ ∃ calls, Accounts a.session trace b.session calls := by
  induction h with
  | refl => exact ⟨hcounts, [], accounts_refl _⟩
  | @step _ _ b _ _ c h hstep ih =>
    obtain ⟨hb, calls, haccounts⟩ := ih
    have hbefore := ha.reaches h
    obtain ⟨hc, hadvances⟩ := hstep.advances hbefore hb
    obtain ⟨calls', haccounts'⟩ := hadvances.accounts fun n hn =>
      hstep.slotText_eq hbefore (hbefore.step hstep)
        (isComplete_records.mpr ((hbefore.finished_iff hb).mp hn).2)
    exact ⟨hc, _, haccounts.trans haccounts'⟩

theorem accounts_of_reaches (h : Reaches ctx (.initial ctx levels css) log trace a) :
    a.session.Counts ∧ ∃ calls, Accounts .start trace a.session calls :=
  h.accounts (tracks_initial ctx levels css) counts_start

theorem not_finished_start (n : Nat) : ¬ Session.start.Finished n := by
  rintro ⟨r, hr, -⟩
  cases hr

/-! ## Every complete import once -/

/-- A delivery to a request whose sheet is being read, or has been, does nothing. -/
theorem Step.eq_of_busy {n : Nat} {text : Text} {r : Request}
    (hstep : Step ctx a [(n, text)] trace b) (hr : a.session.requests[n]? = some r)
    (hbusy : r.isPending → some n ∈ a.owners) : b = a ∧ trace = [] := by
  cases hstep with
  | deliver hr' hpending hfree =>
    cases hr.symm.trans hr'
    exact absurd (hbusy hpending) hfree
  | again => exact ⟨rfl, rfl⟩

theorem deliver?_of_delivered {ctx : ImportContext} {a : Assembly} {n : Nat} {r : Request}
    (hr : a.session.requests[n]? = some r) (hpending : r.isPending = false)
    (text : Text) : a.deliver? ctx n text = some ⟨a, []⟩ := by
  have hdeliver : deliver ctx r.levels n text a.session = pure a.session := by
    cases r.levels <;> simp [deliver, deliverWith, hr, hpending]
  rw [Assembly.deliver?, hr, Option.map_some, hdeliver]
  rfl

/-- In every run, with deliveries at any moments, in any order and any number of times:
the texts handed on so far are those of the complete imports of the main sheet, each once.
Such a text is final, and a further delivery to a request that was delivered does
nothing. -/
theorem continuations_eq_complete
    (h : Reaches ctx (.initial ctx levels css) log trace a) :
    (∃ calls : List Nat, calls.Nodup ∧
      (∀ n, n ∈ calls ↔ IsTop a.session.requests n ∧ IsComplete a.session.requests n) ∧
      trace.continuations.map Prod.fst = calls.map a.session.slotText) ∧
    (∀ n, IsTop a.session.requests n → IsComplete a.session.requests n →
      ∀ log' trace' b, Reaches ctx a log' trace' b →
      b.session.slotText n = a.session.slotText n) ∧
    ∀ n r text, a.session.requests[n]? = some r →
      ((r.isPending → some n ∈ a.owners) →
        ∀ trace' b, Step ctx a [(n, text)] trace' b → b = a ∧ trace' = []) ∧
      (r.isPending = false → ∀ prompt,
        a.deliver? ⟨ctx, prompt⟩ n text = some ⟨a.toAssembly, []⟩) := by
  have htracks := tracks_of_reaches h
  obtain ⟨hcounts, calls, haccounts⟩ := accounts_of_reaches h
  refine ⟨⟨calls, haccounts.nodup, fun n => ?_, haccounts.texts⟩, ?_, ?_⟩
  · rw [haccounts.mem_iff, and_iff_left (not_finished_start n),
      htracks.finished_iff hcounts]
  · intro n htop hcomplete log' trace' b hreaches
    obtain ⟨-, calls', haccounts'⟩ := hreaches.accounts htracks hcounts
    exact (haccounts'.kept n ((htracks.finished_iff hcounts).mpr ⟨htop, hcomplete⟩)).2
  · intro n r text hr
    exact ⟨fun hbusy _ _ hstep => hstep.eq_of_busy hr hbusy,
      fun hpending _ => deliver?_of_delivered hr hpending text⟩

/-- The import of `a` is handed on when its own import was delivered, with that in it. -/
theorem continuations_eq_complete_nested :
    ∃ log trace a,
      Reaches promptContext.sheet
        (.initial promptContext.sheet 2 "@import 'a' screen;") log trace a ∧
      (∃ calls : List Nat, calls.Nodup ∧
        (∀ n, n ∈ calls ↔ IsTop a.session.requests n ∧ IsComplete a.session.requests n) ∧
        trace.continuations.map Prod.fst = calls.map a.session.slotText) ∧
      trace.continuations =
        [("@media screen\x7b@media all\x7b\x7d@media tv\x7b\x7d\x7d".toList, false)] := by
  have hbegin :
      (Assembly.begin promptContext 2 "@import 'a' screen;").trace.continuations =
        [] := by
    decide +kernel
  have hdeliver : ((Assembly.begin promptContext 2 "@import 'a' screen;").value.deliver?
      promptContext 1 "@media all\x7b\x7d").map (fun out => out.trace.continuations) =
      some [("@media screen\x7b@media all\x7b\x7d@media tv\x7b\x7d\x7d".toList,
        false)] := by
    decide +kernel
  obtain ⟨out, hout, hcalls⟩ := Option.map_eq_some_iff.mp hdeliver
  obtain ⟨log, trace, htrace, h⟩ := reaches_begin promptContext 2 "@import 'a' screen;"
  obtain ⟨log', h'⟩ := reaches_deliver? hout
  rw [htrace, continuations_append, List.append_eq_nil_iff] at hbegin
  refine ⟨_, _, _, h.trans h', (continuations_eq_complete (h.trans h')).1, ?_⟩
  rw [continuations_append, hbegin.2, hcalls]
  rfl

/-! ## When no request is open -/

theorem Reaches.getElem?_records (h : Reaches ctx a log' trace b)
    (ha : Tracks ctx levels css a log) {n : Nat} {r : Request}
    (hr : a.session.records[n]? = some r) (hpending : r.isPending = false) :
    b.session.records[n]? = some r := by
  induction h with
  | refl => exact hr
  | step h hstep ih => exact hstep.getElem?_records (ha.reaches h) ih hpending

theorem isComplete_of_all_delivered {rs : List Request}
    (hall : ∀ r ∈ rs, r.isPending = false) {n : Nat} (hn : n < rs.length) :
    IsComplete rs n := by
  intro k hk
  have hr : ∃ r, rs[k]? = some r := by
    cases hk with
    | self => exact ⟨_, List.getElem?_eq_getElem hn⟩
    | kid _ hr _ => exact ⟨_, hr⟩
  obtain ⟨r, hr⟩ := hr
  exact ⟨r, hr, hall r (List.mem_of_getElem? hr)⟩

/-- When no request is open, an import that is finished later was not yet requested. -/
theorem Tracks.length_le_of_finished (hb : Tracks ctx levels css b log)
    (hcounts : b.session.Counts) (hall : ∀ r ∈ b.session.requests, r.isPending = false)
    (h : Reaches ctx b log' trace c) {n : Nat} (hc : c.session.Finished n)
    (hnew : ¬ b.session.Finished n) : b.session.requests.length ≤ n := by
  refine Nat.le_of_not_lt fun hn => hnew ?_
  obtain ⟨rc, hrc, hparent, -⟩ := hc
  obtain ⟨rb, hrb⟩ : ∃ r, b.session.requests[n]? = some r :=
    ⟨_, List.getElem?_eq_getElem hn⟩
  have hdelivered : rb.isPending = false := hall rb (List.mem_of_getElem? hrb)
  have hkept := h.getElem?_records hb (Session.getElem?_records hrb) hdelivered
  have heq := Option.some.inj (hkept.symm.trans (Session.getElem?_records hrc))
  injection heq with _ _ hsame
  exact (hb.finished_iff hcounts).mpr
    ⟨⟨rb, hrb, hsame.trans hparent⟩, isComplete_of_all_delivered hall hn⟩

/-- When no request is open and the main sheet was read, no sheet is being read. -/
theorem Tracks.sheets_eq_nil (hb : Tracks ctx levels css b log)
    (hall : ∀ r ∈ b.session.requests, r.isPending = false) (hmain : none ∉ b.owners) :
    b.sheets = [] := by
  refine List.eq_nil_iff_forall_not_mem.mpr fun sheet hsheet => ?_
  have howner : sheet.owner ∈ b.owners := List.mem_map_of_mem hsheet
  cases ho : sheet.owner with
  | none => exact hmain (ho ▸ howner)
  | some n =>
    obtain ⟨r, hr, hpending⟩ := hb.isPending_of_mem_owners (ho ▸ howner)
    cases (hall r (List.mem_of_getElem? hr)).symm.trans hpending

/-- When no request is open and no sheet is being read, nothing happens any more. -/
theorem Reaches.eq_of_idle (h : Reaches ctx b log trace c) (hidle : b.sheets = [])
    (hall : ∀ r ∈ b.session.requests, r.isPending = false) : c = b ∧ trace = [] := by
  induction h with
  | refl => exact ⟨rfl, rfl⟩
  | step _ hstep ih =>
    obtain ⟨rfl, rfl⟩ := ih
    cases hstep with
    | deliver hr hpending _ =>
      cases (hall _ (List.mem_of_getElem? hr)).symm.trans hpending
    | again => exact ⟨rfl, rfl⟩
    | _ => cases hidle

/-- With a text that is handed on it is said whether a request is open. If none is, the
only texts that are still handed on are those of imports that the main sheet asks for
later; and if the main sheet was read to its end, nothing happens any more. -/
theorem continuations_after_last (h : Reaches ctx (.initial ctx levels css) log trace a)
    (hstep : Step ctx a log' trace' b) {text : Text} {more : Bool}
    (hcall : (text, more) ∈ trace'.continuations) :
    (more = true ↔ ∃ r ∈ b.session.requests, r.isPending) ∧
    (more = false → ∀ later rest c, Reaches ctx b later rest c →
      (∃ calls : List Nat, calls.Nodup ∧
        (∀ n ∈ calls, b.session.requests.length ≤ n ∧ IsTop c.session.requests n) ∧
        rest.continuations.map Prod.fst = calls.map c.session.slotText) ∧
      (none ∉ b.owners → c = b ∧ rest = [])) := by
  have ha := tracks_of_reaches h
  have hb := ha.step hstep
  obtain ⟨hcounts, hadvances⟩ := hstep.advances ha (accounts_of_reaches h).1
  have hmore : more = decide (0 < b.session.pending) := by
    rcases hadvances with ⟨htrace, -⟩ | ⟨n, htrace, -⟩
    · rw [htrace] at hcall
      cases hcall
    · rw [htrace] at hcall
      exact congrArg Prod.snd (List.mem_singleton.mp hcall)
  have hnone := hcounts.pending_eq_zero_iff
  constructor
  · rw [hmore, decide_eq_true_iff, Nat.pos_iff_ne_zero, ne_eq, hnone]
    simp
  · intro hfalse later rest c hlater
    have hall :=
      hnone.mp (Nat.eq_zero_of_not_pos (of_decide_eq_false (hmore.symm.trans hfalse)))
    obtain ⟨hc, calls, haccounts⟩ := hlater.accounts hb hcounts
    refine ⟨⟨calls, haccounts.nodup, fun n hn => ?_, haccounts.texts⟩, fun hmain => ?_⟩
    · obtain ⟨hfinished, hnew⟩ := (haccounts.mem_iff n).mp hn
      exact ⟨hb.length_le_of_finished hcounts hall hlater hfinished hnew,
        (((hb.reaches hlater).finished_iff hc).mp hfinished).1⟩
    · exact hlater.eq_of_idle (hb.sheets_eq_nil hall hmain) hall

/-- A text that is handed on in a run is handed on in one of its steps. -/
theorem Reaches.exists_call (h : Reaches ctx a log trace c) {call : Text × Bool}
    (hcall : call ∈ trace.continuations) :
    ∃ log₁ trace₁ b₁ log₂ trace₂ b₂, Reaches ctx a log₁ trace₁ b₁ ∧
      Step ctx b₁ log₂ trace₂ b₂ ∧ call ∈ trace₂.continuations := by
  induction h with
  | refl => cases hcall
  | step h hstep ih =>
    rw [continuations_append, List.mem_append] at hcall
    rcases hcall with hcall | hcall
    · exact ih hcall
    · exact ⟨_, _, _, _, _, _, h, hstep, hcall⟩

/-- The first of two imports is handed on before the second is asked for. -/
theorem continuations_after_last_first :
    ∃ log trace a log' trace' b text,
      Reaches promptContext.sheet
        (.initial promptContext.sheet 1 "@import 'a';@import 'a';") log trace a ∧
      Step promptContext.sheet a log' trace' b ∧ (text, false) ∈ trace'.continuations ∧
      (¬ ∃ r ∈ b.session.requests, r.isPending) ∧
      ∀ later rest c, Reaches promptContext.sheet b later rest c →
        ∃ calls : List Nat, calls.Nodup ∧
          (∀ n ∈ calls, b.session.requests.length ≤ n ∧ IsTop c.session.requests n) ∧
          rest.continuations.map Prod.fst = calls.map c.session.slotText := by
  have hbegin : ("@media tv\x7b\x7d".toList, false) ∈
      (Assembly.begin promptContext 1
        "@import 'a';@import 'a';").trace.continuations := by
    decide +kernel
  obtain ⟨log, trace, htrace, h⟩ :=
    reaches_begin promptContext 1 "@import 'a';@import 'a';"
  rw [htrace, continuations_append,
    (asks_lex (Q := fun _ _ => True) _).continuations_eq_nil, List.nil_append] at hbegin
  obtain ⟨log₁, trace₁, b₁, log₂, trace₂, b₂, hreaches, hstep, hcall⟩ :=
    h.exists_call hbegin
  obtain ⟨hmore, hlast⟩ := continuations_after_last hreaches hstep hcall
  exact ⟨_, _, _, _, _, _, _, hreaches, hstep, hcall,
    fun hopen => Bool.false_ne_true (hmore.mpr hopen),
    fun later rest c hlater => (hlast rfl later rest c hlater).1⟩

/-- Two imports that are delivered at once are both handed on as if
nothing more was to come. -/
theorem continuations_prompt_twice :
    (Assembly.begin promptContext 1 "@import 'a';@import 'a';").trace.continuations =
      [("@media tv\x7b\x7d".toList, false), ("@media tv\x7b\x7d".toList, false)] := by
  decide +kernel

end CssGuard
