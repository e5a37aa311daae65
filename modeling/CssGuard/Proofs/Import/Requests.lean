import CssGuard.Proofs.Consultations
import CssGuard.Proofs.Import.Tracks

/-!
# Requests are granted and bounded

A sheet is asked for only where the policy has just returned its URL, for an `@import`
rule that stands outside all blocks of its own sheet. The sheets that import one another
on the way to it are no more than the levels that there are, also where a sheet imports
itself.

- `length_stack_outlineOf`: as many rules are open in the
  state of a sheet as in its events
- `Request.HasOrigin`: the rule that a request comes from
- `Chain`: a request and those for the sheets that it is made from
- `Trace.IsGranted`: right before each request the policy returned its URL
- `requests_granted`: in every run requests are granted and bounded
-/

namespace CssGuard

open Text

variable {ctx context : SheetContext} {levels : Nat} {css : Text} {a b : Assembling}
  {log log' : List Delivery} {trace trace' : Trace} {rs : List Request}

/-! ## Open rules -/

/-- In the state of a sheet as many rules are open as in its events so far. -/
theorem length_stack_outlineOf (context : SheetContext) (signals : List Signal) :
    (outlineOf context signals).state.stack.length = openRules 0 (events signals) := by
  induction signals using List.reverseRecOn with
  | nil => rfl
  | append_singleton signals signal ih =>
    rw [outlineOf_concat, events_append, openRules_append, ← ih]
    cases signal with
    | issue cause => rfl
    | event e =>
      show _ = e.openAfter _
      obtain ⟨-, -, -, -, hlength⟩ :=
        frame_step context (outlineOf context signals).state e
      rw [← hlength]
      cases h : ((outlineOf context signals).state.step context e).value.request with
      | none => rw [Outline.next_of_no_request h]
      | some r =>
        rw [Outline.next_of_request h]
        rfl

/-! ## Origins -/

/-- A request comes from an `@import` rule of its sheet that whole rules come before, and
no rule is open around: the policy returned the URL of the request for the target of the
rule, resolved against the URL of the sheet. -/
def Request.HasOrigin (ctx : SheetContext) (levels : Nat) (css : Text)
    (log : List Delivery) (rs : List Request) (r : Request) : Prop :=
  ∃ (text : Text) (before : Rules) (header : List Token) (after : List Event),
    sheetText css log r.parent = some text ∧
    events (sheetSignals (lex text).value) =
      .startSheet :: before.events ++ .startAtRule "@import" header :: after ∧
    ∃ context first target ask, sheetContext ctx levels rs r.parent = some context ∧
      (header.dropWhile (· = Token.space)).head? = some first ∧
      importTarget? first = some target ∧
      ctx.policy = some ask ∧ ask (Url.resolve context.base target) "@import" =
        some r.uri ∧
      Url.isHarmless r.uri

/-- An origin stays the same when more requests are made, more texts delivered. -/
theorem Request.HasOrigin.mono {r : Request} (h : r.HasOrigin ctx levels css log rs)
    {rs' : List Request} (hcontext : ∀ c, sheetContext ctx levels rs r.parent = some c →
      sheetContext ctx levels rs' r.parent = some c) (log' : List Delivery) :
    r.HasOrigin ctx levels css (log ++ log') rs' := by
  obtain ⟨text, before, header, after, htext, hevents, c, first, target, ask, hc,
    hgranted⟩ := h
  exact ⟨text, before, header, after, sheetText_append htext log', hevents, c, first,
    target, ask, hcontext c hc, hgranted⟩

theorem policy_eq_of_sheetContext {owner : Option Nat}
    (h : sheetContext ctx levels rs owner = some context) :
    context.policy = ctx.policy := by
  cases owner with
  | none => rw [← Option.some.inj h]
  | some n =>
    obtain ⟨r, -, rfl⟩ := Option.map_eq_some_iff.mp h
    rfl

/-- A sheet that is being read asks for a sheet. -/
theorem OpenSheet.Tracks.hasOrigin {sheet : OpenSheet}
    (h : sheet.Tracks ctx levels css rs log) {e : Event} {rest : List Signal}
    (hrest : sheet.rest = .event e :: rest) {q : ImportRequest}
    (hrequest : (sheet.state.step sheet.context e).value.request = some q) {r : Request}
    (hparent : r.parent = sheet.owner) (huri : r.uri = q.uri) :
    r.HasOrigin ctx levels css log rs := by
  obtain ⟨text, done, htext, hsignals, hfollows⟩ := h.progress
  obtain ⟨header, rfl, hstack, -, -, first, target, ask, -, hfirst, htarget, hask,
      hgranted, hsafe, -⟩ :=
    request_of_step hrequest
  rw [hrest] at hsignals
  have hopen : openRules 0 (events done) = 0 := by
    rw [← length_stack_outlineOf sheet.context]
    exact List.length_eq_zero_iff.mpr
      ((congrArg SheetState.stack hfollows.state_eq).symm.trans hstack)
  obtain ⟨before, hbefore⟩ := exists_rules_before hsignals hopen
  rw [policy_eq_of_sheetContext h.context] at hask
  exact ⟨text, before, header, events rest, hparent ▸ htext, hbefore, sheet.context,
    first, target, ask, hparent ▸ h.context, hfirst, htarget, hask, huri ▸ hgranted,
    huri ▸ hsafe⟩

/-! ## Chains of imports -/

/-- A request and those for the sheets that it is made from, up to the main sheet. -/
inductive Chain (rs : List Request) : Nat → List Nat → Prop
  | main {n : Nat} {r : Request} (hr : rs[n]? = some r) (hparent : r.parent = none) :
    Chain rs n [n]
  | imported {n p : Nat} {r : Request} {chain : List Nat} (hr : rs[n]? = some r)
    (hparent : r.parent = some p) (h : Chain rs p chain) : Chain rs n (n :: chain)

/-- Each import takes one of the levels, so there are as many as were taken. -/
theorem Orderly.exists_chain (h : Orderly ctx levels rs) (n : Nat) : ∀ {r : Request},
    rs[n]? = some r → ∃ chain, Chain rs n chain ∧ chain.length + r.levels = levels := by
  induction n using Nat.strongRecOn with
  | ind n ih =>
    intro r hr
    obtain ⟨c, hc, hlevels⟩ := h.levels n r hr
    cases hparent : r.parent with
    | none =>
      rw [hparent] at hc
      obtain rfl := Option.some.inj hc
      have htop : levels = r.levels + 1 := Option.some.inj hlevels
      exact ⟨[n], .main hr hparent, by rw [List.length_singleton]; omega⟩
    | some p =>
      rw [hparent] at hc
      obtain ⟨rp, hrp, rfl⟩ := Option.map_eq_some_iff.mp hc
      have hbelow : rp.levels = r.levels + 1 := Option.some.inj hlevels
      obtain ⟨chain, hchain, hlength⟩ := ih p (h.later n r hr p hparent) hrp
      exact ⟨n :: chain, .imported hr hparent hchain, by rw [List.length_cons]; omega⟩

theorem chain_of_records {s : Session} {n : Nat} {chain : List Nat}
    (h : Chain s.records n chain) : Chain s.requests n chain := by
  induction h with
  | main hr hparent =>
    obtain ⟨w, hw⟩ := Session.exists_of_getElem?_records hr
    exact .main hw hparent
  | imported hr hparent _ ih =>
    obtain ⟨w, hw⟩ := Session.exists_of_getElem?_records hr
    exact .imported hw hparent ih

/-! ## Traces -/

namespace Trace

theorem requests_append (t t' : Trace) : requests (t ++ t') = t.requests ++ t'.requests :=
  List.filterMap_append

theorem mem_requests {t : Trace} {uri : Text} (h : .requested uri ∈ t) :
    uri ∈ t.requests :=
  List.mem_filterMap.mpr ⟨_, h, rfl⟩

/-- Right before each request the policy was asked on behalf of an `@import` rule, and
returned its URL, which is harmless. -/
def IsGranted (policy : Option Url.Policy) (t : Trace) : Prop :=
  ∀ before uri after, t = before ++ .requested uri :: after →
    ∃ earlier asked ask, before = earlier ++ [.consulted asked "@import"] ∧
      policy = some ask ∧ ask asked "@import" = some uri ∧ Url.isHarmless uri

variable {policy : Option Url.Policy} {t t' : Trace}

theorem IsGranted.append (h : IsGranted policy t) (hquiet : t'.requests = []) :
    IsGranted policy (t ++ t') := by
  have hmem : ∀ uri, .requested uri ∉ t' := fun uri huri => by
    have := mem_requests huri
    rw [hquiet] at this
    exact List.not_mem_nil this
  intro before uri after heq
  rcases List.append_eq_append_iff.mp heq with ⟨more, -, rfl⟩ | ⟨more, hfirst, hmore⟩
  · exact absurd (List.mem_append_right _ (List.mem_cons_self ..)) (hmem uri)
  · cases more with
    | nil =>
      rw [List.nil_append] at hmore
      exact absurd (hmore ▸ List.mem_cons_self ..) (hmem uri)
    | cons notice more =>
      rw [← (List.cons.inj hmore).1] at hfirst
      exact h before uri more hfirst

theorem IsGranted.request (h : IsGranted policy t) {earlier : Trace} {asked uri : Text}
    {ask : Url.Policy} (hlast : t = earlier ++ [.consulted asked "@import"])
    (hask : policy = some ask) (hgranted : ask asked "@import" = some uri)
    (hsafe : Url.isHarmless uri) : IsGranted policy (t ++ [.requested uri]) := by
  intro before uri' after heq
  rcases List.eq_nil_or_concat after with rfl | ⟨after', notice, rfl⟩
  · obtain ⟨hbefore, huri⟩ := List.append_inj' heq rfl
    cases huri
    exact ⟨earlier, asked, ask, hbefore ▸ hlast, hask, hgranted, hsafe⟩
  · rw [List.concat_eq_append, ← List.cons_append, ← List.append_assoc] at heq
    exact h before uri' after' (List.append_inj' heq rfl).1

end Trace

theorem Traced.Asks.requests_eq_nil {α : Type} {Q : Text → Text → Prop} {x : Traced α}
    (h : x.Asks Q) : x.trace.requests = [] := by
  refine List.filterMap_eq_nil_iff.mpr fun n hn => ?_
  have hquestion := h n hn
  cases n with
  | requested => cases hquestion
  | _ => rfl

theorem requests_step (state : SheetState) (context : SheetContext) (e : Event) :
    (state.step context e).trace.requests = [] :=
  Traced.Asks.requests_eq_nil (Q := fun _ _ => True)
    (asks_step state e (fun _ _ _ => trivial) fun _ _ _ => trivial)

theorem Session.requests_settle (number : Nat) (s : Session) :
    (settle number s).trace.requests = [] := by
  fun_induction settle number s with
  | case4 _ _ _ _ _ _ _ _ _ ih => exact ih
  | _ => rfl

theorem map_uri_delivering (number : Nat) (parts : List Part) (rs : List Request) :
    (delivering number parts rs).map Request.uri = rs.map Request.uri := by
  refine List.ext_getElem? fun n => ?_
  rw [List.getElem?_map, List.getElem?_map, getElem?_delivering, Option.map_map]
  refine congrArg (fun f => rs[n]?.map f) (funext fun r => ?_)
  rw [Function.comp_apply]
  split <;> rfl

/-! ## Runs -/

/-- What is known of all requests at a moment. -/
structure Requested (ctx : SheetContext) (levels : Nat) (css : Text) (a : Assembling)
    (log : List Delivery) (trace : Trace) : Prop where
  uris : trace.requests = a.session.records.map Request.uri
  granted : trace.IsGranted ctx.policy
  origins : ∀ (n : Nat) (r : Request), a.session.records[n]? = some r →
    r.HasOrigin ctx levels css log a.session.records

theorem requested_initial (ctx : SheetContext) (levels : Nat) (css : Text) :
    Requested ctx levels css (.initial ctx levels css) [] [] where
  uris := rfl
  granted := fun _ _ _ h => absurd h.symm (by simp)
  origins := fun _ _ h => by cases h

/-- A step in which nothing is asked for. -/
theorem Requested.quiet (h : Requested ctx levels css a log trace)
    (hrecords : b.session.records = a.session.records) (htrace : trace'.requests = []) :
    Requested ctx levels css b (log ++ log') (trace ++ trace') where
  uris := by rw [Trace.requests_append, htrace, List.append_nil, hrecords, h.uris]
  granted := h.granted.append htrace
  origins := by
    rw [hrecords]
    exact fun n r hr => (h.origins n r hr).mono (fun _ hc => hc) log'

/-- What one step adds to the requests. -/
theorem Requested.step (h : Requested ctx levels css a log trace)
    (htracks : Tracks ctx levels css a log) (hstep : Step ctx a log' trace' b) :
    Requested ctx levels css b (log ++ log') (trace ++ trace') := by
  cases hstep with
  | issue => exact h.quiet rfl rfl
  | event => exact h.quiet rfl (requests_step ..)
  | @request parts session owner context state e rest others q hrequest =>
    have hhead := htracks.reading _ (List.mem_cons_self ..)
    obtain ⟨header, rfl, -, -, -, first, target, ask, earlier, -, -, hask, hgranted,
        hsafe, htrace⟩ :=
      request_of_step hrequest
    have hrecords := Session.records_register session owner context.levelsBelow q
    refine ⟨?_, ?_, fun n r hr => ?_⟩
    · rw [Trace.requests_append, Trace.requests_append, requests_step, h.uris, hrecords,
        List.map_append]
      rfl
    -- the policy is asked last, right before the request
    · have hlast : trace ++ (state.step context (.startAtRule "@import" header)).trace =
          (trace ++ earlier) ++
            [.consulted (Url.resolve context.base target) "@import"] := by
        rw [htrace, List.append_assoc]
      rw [← List.append_assoc]
      exact (h.granted.append (requests_step ..)).request hlast
        (policy_eq_of_sheetContext hhead.context ▸ hask) hgranted hsafe
    · dsimp only at hr ⊢
      rw [hrecords] at hr ⊢
      rcases getElem?_concat_cases hr with hr | ⟨-, rfl⟩
      · exact (h.origins n r hr).mono (fun _ hc => sheetContext_append hc _) []
      · exact (hhead.hasOrigin rfl hrequest rfl rfl).mono
          (fun _ hc => sheetContext_append hc _) []
  | mainEnd => exact h.quiet rfl rfl
  | @close parts session number context state others =>
    have hrecords := Session.records_close session number state.parts
    have htrace : (session.close number state.parts).trace.requests = [] :=
      Session.requests_settle ..
    refine ⟨?_, h.granted.append htrace, fun n r hr => ?_⟩
    · rw [Trace.requests_append, htrace, List.append_nil, hrecords,
        map_uri_delivering, h.uris]
    · dsimp only at hr ⊢
      rw [hrecords] at hr ⊢
      rcases cases_of_delivering hr with ⟨-, hr⟩ | ⟨-, r', hr', rfl⟩
      · exact (h.origins n r hr).mono
          (fun _ hc => (sheetContext_delivering ..).trans hc) []
      · exact (h.origins n r' hr').mono
          (fun _ hc => (sheetContext_delivering ..).trans hc) []
  | deliver => exact h.quiet rfl (asks_lex (Q := fun _ _ => True) _).requests_eq_nil
  | again => exact h.quiet rfl rfl

theorem requested_of_reaches (h : Reaches ctx (.initial ctx levels css) log trace a) :
    Requested ctx levels css a log trace := by
  induction h with
  | refl => exact requested_initial ctx levels css
  | step h hstep ih => exact ih.step (tracks_of_reaches h) hstep

theorem sheetContext_records (s : Session) (owner : Option Nat) :
    sheetContext ctx levels s.records owner =
      sheetContext ctx levels s.requests owner := by
  cases owner with
  | none => rfl
  | some n =>
    rw [sheetContext, sheetContext, Session.records, List.getElem?_map, Option.map_map]
    rfl

theorem Url.scheme_of_isHarmless {uri scheme : Text} (h : Url.isHarmless uri)
    (hscheme : Url.scheme? (strip uri) = some scheme) :
    scheme = "http" ∨ scheme = "https" ∨ scheme = "mailto" := by
  rw [Url.isHarmless, hscheme] at h
  have hmem : scheme ∈ Url.harmlessSchemes := of_decide_eq_true h
  simpa [Url.harmlessSchemes] using hmem

/-- In every run, with deliveries at any moments, in any order and of any sheets: the
sheets that are asked for are the requests, in their order. Right before each of them the
policy was asked on behalf of an `@import` rule and returned its URL, which has no scheme
or a harmless one. The rule stands outside all blocks of its sheet, and no more sheets
than there are levels import one another on the way to the request. Without a policy, or
when imports are not followed, nothing is asked for. -/
theorem requests_granted (h : Reaches ctx (.initial ctx levels css) log trace a) :
    trace.requests = a.session.requests.map Request.uri ∧
    (∀ before uri after, trace = before ++ .requested uri :: after →
      ∃ earlier asked ask, before = earlier ++ [.consulted asked "@import"] ∧
        ctx.policy = some ask ∧ ask asked "@import" = some uri ∧
        ∀ scheme, Url.scheme? (strip uri) = some scheme →
          scheme = "http" ∨ scheme = "https" ∨ scheme = "mailto") ∧
    (∀ n r, a.session.requests[n]? = some r →
      r.HasOrigin ctx levels css log a.session.requests ∧
      ∃ chain, Chain a.session.requests n chain ∧ chain.length ≤ levels) ∧
    (ctx.policy = none → trace.requests = []) ∧
    (Assembly.withoutImports ctx css).trace.requests = [] := by
  have hrequested := requested_of_reaches h
  refine ⟨?_, fun before uri after heq => ?_, fun n r hr => ⟨?_, ?_⟩,
    fun hpolicy => ?_, ?_⟩
  · rw [hrequested.uris, Session.records, List.map_map]
    rfl
  · obtain ⟨earlier, asked, ask, hbefore, hask, hgranted, hsafe⟩ :=
      hrequested.granted before uri after heq
    exact ⟨earlier, asked, ask, hbefore, hask, hgranted,
      fun _ => Url.scheme_of_isHarmless hsafe⟩
  · have horigin := (hrequested.origins n _ (Session.getElem?_records hr)).mono
      (fun _ hc => (sheetContext_records ..).symm.trans hc) []
    rw [List.append_nil] at horigin
    exact horigin
  · obtain ⟨chain, hchain, hlength⟩ :=
      (tracks_of_reaches h).orderly.exists_chain n (Session.getElem?_records hr)
    exact ⟨chain, chain_of_records hchain, Nat.le_of_add_right_le (Nat.le_of_eq hlength)⟩
  · rw [hrequested.uris, List.map_eq_nil_iff, List.eq_nil_iff_forall_not_mem]
    intro r hr
    obtain ⟨n, hn⟩ := List.mem_iff_getElem?.mp hr
    obtain ⟨-, -, -, -, -, -, -, -, -, ask, -, -, -, hask, -⟩ := hrequested.origins n r hn
    rw [hpolicy] at hask
    cases hask
  · have hasks : (Assembly.withoutImports ctx css).Asks (IsFairQuestion ctx.schema) :=
      (asks_lex css).bind ((asks_runSheet rfl _ _).bind (asks_pure _))
    exact hasks.requests_eq_nil

/-- A context whose policy returns every URL, and where the sheet `a`, which imports
itself, is delivered at once. -/
def selfContext : ImportContext where
  sheet :=
    { confinement := .standard
      policy := some fun uri _ => some uri
      base := none }
  prompt _ := some "@media tv\x7b\x7d@import 'a';"

/-- Of a sheet that imports itself without end, two are asked
for if there are two levels. -/
theorem requests_granted_selfContext :
    ∃ log trace a,
      Reaches selfContext.sheet (.initial selfContext.sheet 2 "@import 'a';")
        log trace a ∧
      trace.requests = [['a'], ['a']] ∧ ∀ n r, a.session.requests[n]? = some r →
        r.HasOrigin selfContext.sheet 2 "@import 'a';" log a.session.requests ∧
        ∃ chain, Chain a.session.requests n chain ∧ chain.length ≤ 2 := by
  have huris : (Assembly.begin selfContext 2 "@import 'a';").value.session.requests.map
    Request.uri =
      [['a'], ['a']] := by decide +kernel
  obtain ⟨log, trace, -, h⟩ := reaches_begin selfContext 2 "@import 'a';"
  exact ⟨log, trace, _, h, (requests_granted h).1.trans huris, (requests_granted h).2.2.1⟩

end CssGuard
